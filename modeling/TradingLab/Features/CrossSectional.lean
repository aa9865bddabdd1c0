import TradingLab.Core.Types
import TradingLab.Ranking
import Mathlib.Algebra.Order.Floor.Ring
import Mathlib.Data.List.GetD
import Mathlib.Data.Prod.Lex
import Mathlib.Data.Rat.Floor

namespace ptl.features

/-! ### Ranks -/

section Ranks

variable (values : List Rat)

/-- By value, then by place. -/
def ranked_before (a b : Nat) : Bool :=
  if values.getD a 0 ≠ values.getD b 0 then values.getD a 0 < values.getD b 0 else a < b

/-- From place `i` of the sorted order on, every tied block gets the average of its
places. -/
def assign_ranks : Nat → List Nat → List Rat → List Rat
  | _, [], out => out
  | i, k :: rest, out =>
    let same x : Bool := values.getD x 0 = values.getD k 0
    let tied := rest.takeWhile same
    let j := i + tied.length
    let avg_rank := ((i : Rat) + j) * 0.5
    let pct := avg_rank / (values.length - 1)
    assign_ranks (j + 1) (rest.dropWhile same) ((k :: tied).foldl (fun out x => out.set x pct) out)
  termination_by _ l => l.length
  decreasing_by exact Nat.lt_succ_of_le (rest.dropWhile_sublist _).length_le

/-- Fractional ranks, ties averaged. -/
def percentile_ranks : List Rat :=
  let out := List.replicate values.length 0.5
  if values.length ≤ 1 then out
  else assign_ranks values 0 (Ranking.sort (ranked_before values) (List.range values.length)) out

end Ranks

/-! ### Transforms -/

/-- Zero where there is no dispersion. -/
def cross_sectional_zscore (sqrt : Rat → Rat) (values : List Rat) : List Rat :=
  let n := values.length
  let out := List.replicate n 0
  if n < 2 then out
  else
    let mean := values.sum / n
    let m2 := (values.map fun v => (v - mean) * (v - mean)).sum
    let sd := sqrt (m2 / (n - 1))
    if sd ≤ 0 then out else values.map fun v => (v - mean) / sd

/-- To the nearest integer, halves away from zero. -/
def llround (x : Rat) : Int := if x < 0 then -⌊-x + 1 / 2⌋ else ⌊x + 1 / 2⌋

def clamp (v lo hi : Rat) : Rat := if v < lo then lo else if hi < v then hi else v

/-- Clips to the quantiles of the values themselves, by nearest rank. -/
def winsorize (values : List Rat) (lower_quantile upper_quantile : Rat) : List Rat :=
  let n := values.length
  if n < 3 then values
  else if ¬ (0 ≤ lower_quantile ∧ upper_quantile ≤ 1 ∧ lower_quantile < upper_quantile) then values
  else
    let sorted := Ranking.sort (fun a b => a < b) values
    let lo := sorted.getD (llround (lower_quantile * (n - 1))).toNat 0
    let hi := sorted.getD (llround (upper_quantile * (n - 1))).toNat 0
    values.map fun v => clamp v lo hi

def demean (values : List Rat) : List Rat := values.map fun v => v - values.sum / values.length

/-- Subtracts the mean of each value's own group. -/
def group_demean (values : List Rat) (groups : List Int) : List Rat :=
  if values.length ≠ groups.length then values
  else
    (values.zip groups).map fun e =>
      let members := (values.zip groups).filter fun m => m.2 = e.2
      e.1 - (members.map Prod.fst).sum / members.length

/-! ### What a rank is -/

section Ranks

variable {values : List Rat}

theorem length_foldl_set (block : List Nat) (p : Rat) (out : List Rat) :
    (block.foldl (fun out x => out.set x p) out).length = out.length := by
  induction block generalizing out with
  | nil => rfl
  | cons k block ih => rw [List.foldl_cons, ih, List.length_set]

theorem getElem?_foldl_set (block : List Nat) (p : Rat) {out : List Rat} {x : Nat} (hx : x < out.length) :
    (block.foldl (fun out x => out.set x p) out)[x]? = if x ∈ block then some p else out[x]? := by
  induction block generalizing out with
  | nil => simp
  | cons k block ih =>
    rw [List.foldl_cons, ih (by rwa [List.length_set])]
    by_cases hmem : x ∈ block
    · rw [if_pos hmem, if_pos (List.mem_cons_of_mem _ hmem)]
    · rw [if_neg hmem]
      by_cases hsame : k = x
      · rw [hsame, List.getElem?_set_self hx, if_pos List.mem_cons_self]
      · have hnot : ¬ x ∈ k :: block := mt List.mem_cons.mp (not_or.mpr ⟨Ne.symm hsame, hmem⟩)
        rw [List.getElem?_set_ne hsame, if_neg hnot]

theorem length_assign_ranks (i : Nat) (l : List Nat) (out : List Rat) :
    (assign_ranks values i l out).length = out.length := by
  induction i, l, out using assign_ranks.induct values with
  | case1 i out => rw [assign_ranks]
  | case2 i k rest out same tied j avg_rank pct ih =>
    rw [assign_ranks]
    exact ih.trans (length_foldl_set _ _ _)

/-- The average of the first and the last place of a tied block. -/
def block_rank (values : List Rat) (below reached : Nat) : Rat :=
  ((below : Rat) + (reached - 1)) * 0.5 / (values.length - 1)

/-- Past a tied block of a sorted order all values are larger. -/
theorem lt_of_mem_dropWhile {v : Nat → Rat} {k : Nat} {rest : List Nat} (hfirst : ∀ y ∈ rest, v k ≤ v y)
    (hsorted : rest.Pairwise fun a b => v a ≤ v b) : ∀ y ∈ rest.dropWhile fun y => v y = v k, v k < v y := by
  induction rest with
  | nil => exact fun y hy => nomatch hy
  | cons z rest ih =>
    obtain ⟨hz, hrest⟩ := List.pairwise_cons.mp hsorted
    by_cases hsame : v z = v k
    · have hdrop : (z :: rest).dropWhile (fun y => v y = v k) = rest.dropWhile fun y => v y = v k :=
        List.dropWhile_cons_of_pos (by simpa using hsame)
      rw [hdrop]
      exact ih (fun y hy => hfirst y (List.mem_cons_of_mem _ hy)) hrest
    · have habove : v k < v z := lt_of_le_of_ne (hfirst z List.mem_cons_self) (Ne.symm hsame)
      rw [List.dropWhile_cons_of_neg (by simpa using hsame)]
      exact List.forall_mem_cons.mpr ⟨habove, fun y hy => habove.trans_le (hz y hy)⟩

theorem countP_le_of_above {v : Nat → Rat} {x : Nat} {l : List Nat} (habove : ∀ y ∈ l, v x < v y) :
    (l.countP fun y => v y < v x) = 0 ∧ (l.countP fun y => v y ≤ v x) = 0 := by
  constructor
  · exact List.countP_eq_zero.mpr fun y hy hlt => lt_asymm (habove y hy) (of_decide_eq_true hlt)
  · exact List.countP_eq_zero.mpr fun y hy hle => (habove y hy).not_ge (of_decide_eq_true hle)

theorem countP_of_tied {v : Nat → Rat} {x k : Nat} {l : List Nat} (htied : ∀ y ∈ l, v y = v k) :
    (v x = v k → (l.countP fun y => v y < v x) = 0 ∧ (l.countP fun y => v y ≤ v x) = l.length) ∧
      (v k < v x → (l.countP fun y => v y < v x) = l.length ∧ (l.countP fun y => v y ≤ v x) = l.length) := by
  refine ⟨fun hsame => ⟨?_, ?_⟩, fun habove => ⟨?_, ?_⟩⟩
  · refine List.countP_eq_zero.mpr fun y hy hlt => absurd (of_decide_eq_true hlt) ?_
    rw [htied y hy, hsame]
    exact lt_irrefl _
  · exact List.countP_eq_length.mpr fun y hy => decide_eq_true (by rw [htied y hy, hsame])
  · exact List.countP_eq_length.mpr fun y hy => decide_eq_true (by rwa [htied y hy])
  · exact List.countP_eq_length.mpr fun y hy => decide_eq_true (by rw [htied y hy]; exact habove.le)

/-- In a sorted order every place gets the rank of its value's block. -/
theorem getElem?_assign_ranks (i : Nat) (l : List Nat) (out : List Rat) {x : Nat} (hx : x < out.length)
    (hsorted : l.Pairwise fun a b => values.getD a 0 ≤ values.getD b 0) (hnodup : l.Nodup) :
    (assign_ranks values i l out)[x]? =
      if x ∈ l then
        some (block_rank values (i + l.countP fun y => values.getD y 0 < values.getD x 0)
          (i + l.countP fun y => values.getD y 0 ≤ values.getD x 0))
      else out[x]? := by
  induction i, l, out using assign_ranks.induct values with
  | case1 i out => simp [assign_ranks]
  | case2 i k rest out same tied j avg_rank pct ih =>
    obtain ⟨hfirst, hrest⟩ := List.pairwise_cons.mp hsorted
    have hsplit : k :: rest = (k :: tied) ++ rest.dropWhile same := by
      rw [List.cons_append, List.takeWhile_append_dropWhile]
    have htied : ∀ y ∈ k :: tied, values.getD y 0 = values.getD k 0 :=
      List.forall_mem_cons.mpr ⟨rfl, fun y hy => of_decide_eq_true (List.all_eq_true.mp List.all_takeWhile y hy)⟩
    have hlater := lt_of_mem_dropWhile (v := fun y => values.getD y 0) hfirst hrest
    have hlength := length_foldl_set (k :: tied) pct out
    rw [hsplit] at hnodup
    obtain ⟨-, hnodup', hdisjoint⟩ := List.nodup_append.mp hnodup
    have hnext := ih (hlength.symm ▸ hx) (hrest.sublist (List.dropWhile_sublist _)) hnodup'
    rw [assign_ranks, hsplit, List.countP_append, List.countP_append]
    refine hnext.trans ?_
    by_cases hblock : x ∈ k :: tied
    · have hsame := htied x hblock
      obtain ⟨hbelow, hreached⟩ := (countP_of_tied (v := fun y => values.getD y 0) (x := x) htied).1 hsame
      have hnone : ∀ y ∈ rest.dropWhile same, values.getD x 0 < values.getD y 0 := fun y hy => hsame ▸ hlater y hy
      obtain ⟨hbelow', hreached'⟩ := countP_le_of_above (v := fun y => values.getD y 0) hnone
      have hnot : x ∉ rest.dropWhile same := fun hmem => hdisjoint x hblock x hmem rfl
      rw [if_neg hnot, getElem?_foldl_set _ _ hx, if_pos hblock, if_pos (List.mem_append_left _ hblock)]
      have hpct : pct = ((i : Rat) + ((i + tied.length : Nat) : Rat)) * 0.5 / (values.length - 1) := rfl
      rw [block_rank, hpct]
      simp only [hbelow, hreached, hbelow', hreached', List.length_cons]
      push_cast
      ring_nf
    · by_cases hmem : x ∈ rest.dropWhile same
      · obtain ⟨hbelow, hreached⟩ := (countP_of_tied (v := fun y => values.getD y 0) (x := x) htied).2 (hlater x hmem)
        rw [if_pos hmem, if_pos (List.mem_append_right _ hmem)]
        congr 2
        · simp only [hbelow, List.length_cons]
          omega
        · simp only [hreached, List.length_cons]
          omega
      · have hnot : x ∉ (k :: tied) ++ rest.dropWhile same := mt List.mem_append.mp (not_or.mpr ⟨hblock, hmem⟩)
        rw [if_neg hmem, if_neg hnot, getElem?_foldl_set _ _ hx, if_neg hblock]

variable (values) in
theorem ranked_before_iff (a b : Nat) : ranked_before values a b = true ↔
    toLex (values.getD a 0, a) < toLex (values.getD b 0, b) := by
  rw [ranked_before, Prod.Lex.toLex_lt_toLex]
  split
  · rename_i hne
    rw [decide_eq_true_eq, or_iff_left fun hsame => hne hsame.1]
  · rename_i hsame
    rw [decide_eq_true_eq, not_not.mp hsame, or_iff_right (lt_irrefl _), and_iff_right rfl]

/-- The rank of a value among others: the average place of its block, from zero to
one. -/
def percentile (values : List Rat) (v : Rat) : Rat :=
  if values.length ≤ 1 then 0.5 else block_rank values (values.countP (· < v)) (values.countP (· ≤ v))

theorem map_getD_range (values : List Rat) :
    (List.range values.length).map (fun y => values.getD y 0) = values := by
  refine List.ext_getElem (by rw [List.length_map, List.length_range]) fun y hy hy' => ?_
  rw [List.getElem_map, List.getElem_range, List.getD_eq_getElem _ _ hy']

/-- Over the whole sorted order every place is overwritten. -/
theorem assign_ranks_sorted (values : List Rat) {out : List Rat} (hlength : out.length = values.length) :
    assign_ranks values 0 (Ranking.sort (ranked_before values) (List.range values.length)) out =
      values.map fun v => block_rank values (values.countP (· < v)) (values.countP (· ≤ v)) := by
  have hsorted := Ranking.pairwise_le_sort (ranked_before_iff values) (List.range values.length)
  have hperm := Ranking.sort_perm (ranked_before values) (List.range values.length)
  have hcount : ∀ p : Rat → Bool, ((Ranking.sort (ranked_before values) (List.range values.length)).countP
      fun y => p (values.getD y 0)) = values.countP p := by
    intro p
    rw [hperm.countP_eq]
    conv_rhs => rw [← map_getD_range values, List.countP_map]
    rfl
  refine List.ext_getElem? fun x => ?_
  rcases Nat.lt_or_ge x values.length with hx | hx
  · have hmem : x ∈ Ranking.sort (ranked_before values) (List.range values.length) :=
      Ranking.mem_sort.mpr (List.mem_range.mpr hx)
    have hrank := getElem?_assign_ranks 0 _ _ (hlength.symm ▸ hx)
      (hsorted.imp fun hle => (Prod.Lex.toLex_le_toLex.mp hle).elim le_of_lt fun h => h.1.le)
      (hperm.nodup_iff.mpr List.nodup_range)
    rw [hrank, if_pos hmem, hcount fun w => w < values.getD x 0, hcount fun w => w ≤ values.getD x 0,
      List.getElem?_map, List.getElem?_eq_getElem hx, List.getD_eq_getElem _ _ hx, Nat.zero_add, Nat.zero_add]
    rfl
  · rw [List.getElem?_eq_none, List.getElem?_eq_none]
    · rwa [List.length_map]
    · rwa [length_assign_ranks, hlength]

/-- The rank of a value depends on nothing but how many are below it and how many
are not above. -/
theorem percentile_ranks_eq (values : List Rat) : percentile_ranks values = values.map (percentile values) := by
  rw [percentile_ranks]
  unfold percentile
  by_cases hfew : values.length ≤ 1
  · simp only [if_pos hfew, List.map_const']
  · simp only [if_neg hfew]
    exact assign_ranks_sorted values List.length_replicate

theorem percentile_perm {values' : List Rat} (hperm : values.Perm values') :
    percentile values = percentile values' := by
  funext v
  rw [percentile, percentile, block_rank, block_rank, hperm.length_eq, hperm.countP_eq, hperm.countP_eq]

/-! ### What clipping is -/

/-- A value clipped to the quantiles of others. -/
def winsorized (values : List Rat) (lower_quantile upper_quantile v : Rat) : Rat :=
  let n := values.length
  if n < 3 then v
  else if ¬ (0 ≤ lower_quantile ∧ upper_quantile ≤ 1 ∧ lower_quantile < upper_quantile) then v
  else
    let sorted := Ranking.sort (fun a b => a < b) values
    clamp v (sorted.getD (llround (lower_quantile * (n - 1))).toNat 0)
      (sorted.getD (llround (upper_quantile * (n - 1))).toNat 0)

theorem winsorize_eq (values : List Rat) (lower_quantile upper_quantile : Rat) :
    winsorize values lower_quantile upper_quantile =
      values.map (winsorized values lower_quantile upper_quantile) := by
  rw [winsorize]
  unfold winsorized
  dsimp only
  split
  · exact (List.map_id values).symm
  · split
    · exact (List.map_id values).symm
    · rfl

theorem sort_eq_of_perm {values' : List Rat} (hperm : values.Perm values') :
    Ranking.sort (fun a b => a < b) values = Ranking.sort (fun a b => a < b) values' := by
  have hbefore : ∀ a b : Rat, decide (a < b) = true ↔ id a < id b := fun a b => decide_eq_true_iff
  refine List.Perm.eq_of_pairwise (fun a b _ _ hab hba => le_antisymm hab hba)
    (Ranking.pairwise_le_sort hbefore values) (Ranking.pairwise_le_sort hbefore values') ?_
  exact (Ranking.sort_perm _ values).trans (hperm.trans (Ranking.sort_perm _ values').symm)

theorem winsorized_perm {values' : List Rat} (hperm : values.Perm values') (lower_quantile upper_quantile : Rat) :
    winsorized values lower_quantile upper_quantile = winsorized values' lower_quantile upper_quantile := by
  funext v
  rw [winsorized, winsorized, hperm.length_eq, sort_eq_of_perm hperm]

end Ranks

end ptl.features
