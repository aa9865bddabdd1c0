import Mathlib.Algebra.Order.BigOperators.Group.List
import Mathlib.Algebra.Order.Field.Basic
import Mathlib.Algebra.BigOperators.Ring.List
import Mathlib.Data.List.Chain
import Mathlib.Tactic.Ring
import TradingLab.Algo.Algorithms

namespace ptl.algo

/-! ### What slices are due -/

/-- What a slice is due by an instant: nothing before it begins, then in
proportion to time, and all of it once it has ended. -/
def ScheduleSlice.due (slice : ScheduleSlice) (ts : Timestamp) : Qty :=
  if ts < slice.begin_time then 0
  else if slice.end_time ≤ ts then slice.target_quantity
  else slice.target_quantity *
    (((ts - slice.begin_time : Int) : Rat) / ((slice.end_time - slice.begin_time : Int) : Rat))

def totalDue (slices : List ScheduleSlice) (ts : Timestamp) : Qty := (slices.map (·.due ts)).sum

def planned (slices : List ScheduleSlice) : Qty := (slices.map ScheduleSlice.target_quantity).sum

@[simp] theorem totalDue_nil (ts : Timestamp) : totalDue [] ts = 0 := rfl

@[simp] theorem totalDue_cons (slice : ScheduleSlice) (rest : List ScheduleSlice) (ts : Timestamp) :
    totalDue (slice :: rest) ts = slice.due ts + totalDue rest ts := rfl

@[simp] theorem planned_nil : planned [] = 0 := rfl

@[simp] theorem planned_cons (slice : ScheduleSlice) (rest : List ScheduleSlice) :
    planned (slice :: rest) = slice.target_quantity + planned rest := rfl

theorem ScheduleSlice.due_of_lt {slice : ScheduleSlice} {ts : Timestamp} (hbefore : ts < slice.begin_time) :
    slice.due ts = 0 := if_pos hbefore

theorem ScheduleSlice.due_of_le {slice : ScheduleSlice} {ts : Timestamp} (hbegun : slice.begin_time ≤ ts)
    (hended : slice.end_time ≤ ts) : slice.due ts = slice.target_quantity := by
  rw [ScheduleSlice.due, if_neg (not_lt.mpr hbegun), if_pos hended]

theorem ScheduleSlice.due_of_mem {slice : ScheduleSlice} {ts : Timestamp} (hbegun : slice.begin_time ≤ ts)
    (hbefore : ts < slice.end_time) :
    slice.due ts = slice.target_quantity *
      (((ts - slice.begin_time : Int) : Rat) / ((slice.end_time - slice.begin_time : Int) : Rat)) := by
  rw [ScheduleSlice.due, if_neg (not_lt.mpr hbegun), if_neg (not_le.mpr hbefore)]

/-- How far an instant is into a slice, as a part of it. -/
theorem ScheduleSlice.fraction_bounds {slice : ScheduleSlice} {ts : Timestamp} (hbegun : slice.begin_time ≤ ts)
    (hbefore : ts < slice.end_time) :
    0 < ((slice.end_time - slice.begin_time : Int) : Rat) ∧
      0 ≤ ((ts - slice.begin_time : Int) : Rat) / ((slice.end_time - slice.begin_time : Int) : Rat) ∧
      ((ts - slice.begin_time : Int) : Rat) / ((slice.end_time - slice.begin_time : Int) : Rat) ≤ 1 := by
  have helapsed : (0 : Rat) ≤ ((ts - slice.begin_time : Int) : Rat) := by
    exact_mod_cast sub_nonneg.mpr hbegun
  have hspan : (0 : Rat) < ((slice.end_time - slice.begin_time : Int) : Rat) := by
    exact_mod_cast sub_pos.mpr (lt_of_le_of_lt hbegun hbefore)
  have hless : ((ts - slice.begin_time : Int) : Rat) ≤ ((slice.end_time - slice.begin_time : Int) : Rat) := by
    exact_mod_cast sub_le_sub_right hbefore.le slice.begin_time
  exact ⟨hspan, div_nonneg helapsed hspan.le, (div_le_one hspan).mpr hless⟩

theorem ScheduleSlice.due_bounds {slice : ScheduleSlice} (hnonneg : 0 ≤ slice.target_quantity) (ts : Timestamp) :
    0 ≤ slice.due ts ∧ slice.due ts ≤ slice.target_quantity := by
  rcases lt_or_ge ts slice.begin_time with hbefore | hbegun
  · rw [slice.due_of_lt hbefore]
    exact ⟨le_refl 0, hnonneg⟩
  · rcases le_or_gt slice.end_time ts with hended | hwithin
    · rw [slice.due_of_le hbegun hended]
      exact ⟨hnonneg, le_refl _⟩
    · obtain ⟨-, hlow, hhigh⟩ := slice.fraction_bounds hbegun hwithin
      rw [slice.due_of_mem hbegun hwithin]
      exact ⟨mul_nonneg hnonneg hlow, mul_le_of_le_one_right hnonneg hhigh⟩

/-- A slice is never due less later on. -/
theorem ScheduleSlice.due_mono {slice : ScheduleSlice} (hnonneg : 0 ≤ slice.target_quantity)
    {ts later : Timestamp} (hle : ts ≤ later) : slice.due ts ≤ slice.due later := by
  rcases lt_or_ge ts slice.begin_time with hbefore | hbegun
  · rw [slice.due_of_lt hbefore]
    exact (slice.due_bounds hnonneg later).1
  · rcases le_or_gt slice.end_time later with hended | hwithin
    · rw [slice.due_of_le (hbegun.trans hle) hended]
      exact (slice.due_bounds hnonneg ts).2
    · obtain ⟨hspan, -, -⟩ := slice.fraction_bounds (hbegun.trans hle) hwithin
      rw [slice.due_of_mem hbegun (lt_of_le_of_lt hle hwithin), slice.due_of_mem (hbegun.trans hle) hwithin]
      have helapsed : ((ts - slice.begin_time : Int) : Rat) ≤ ((later - slice.begin_time : Int) : Rat) := by
        exact_mod_cast sub_le_sub_right hle slice.begin_time
      exact mul_le_mul_of_nonneg_left (div_le_div_of_nonneg_right helapsed hspan.le) hnonneg

/-! ### Slices laid end to end -/

/-- Slices one after the other from an instant to the finish, each carrying what
is planned up to its end. -/
inductive Laid (finish : Timestamp) : Timestamp → Qty → List ScheduleSlice → Prop
  | nil {done : Qty} : Laid finish finish done []
  | cons {start : Timestamp} {done : Qty} {slice : ScheduleSlice} {rest : List ScheduleSlice} :
      slice.begin_time = start → start ≤ slice.end_time → 0 ≤ slice.target_quantity →
      slice.cumulative_target = done + slice.target_quantity →
      Laid finish slice.end_time slice.cumulative_target rest → Laid finish start done (slice :: rest)

section
variable {finish start : Timestamp} {done : Qty} {slices : List ScheduleSlice}

theorem Laid.start_le (hlaid : Laid finish start done slices) : start ≤ finish := by
  induction hlaid with
  | nil => exact le_refl _
  | cons _ hforward _ _ _ ih => exact hforward.trans ih

theorem Laid.bounds (hlaid : Laid finish start done slices) :
    ∀ slice ∈ slices, start ≤ slice.begin_time ∧ slice.begin_time ≤ slice.end_time ∧ slice.end_time ≤ finish := by
  induction hlaid with
  | nil => exact fun _ hmem => by cases hmem
  | cons hbegin hforward _ _ hrest ih =>
    refine List.forall_mem_cons.mpr ⟨⟨hbegin.ge, hbegin.trans_le hforward, hrest.start_le⟩, fun slice hmem => ?_⟩
    obtain ⟨hafter, hbounds⟩ := ih slice hmem
    exact ⟨hforward.trans hafter, hbounds⟩

theorem Laid.nonneg (hlaid : Laid finish start done slices) : ∀ slice ∈ slices, 0 ≤ slice.target_quantity := by
  induction hlaid with
  | nil => exact fun _ hmem => by cases hmem
  | cons _ _ hnonneg _ _ ih => exact List.forall_mem_cons.mpr ⟨hnonneg, ih⟩

theorem Laid.contiguous (hlaid : Laid finish start done slices) :
    slices.IsChain fun slice next => slice.end_time = next.begin_time := by
  induction hlaid with
  | nil => exact .nil
  | cons _ _ _ _ hrest ih =>
    refine List.isChain_cons.mpr ⟨fun next hnext => ?_, ih⟩
    cases hrest with
    | nil => cases hnext
    | cons hbegin =>
      cases hnext
      exact hbegin.symm

theorem Laid.getLast (hlaid : Laid finish start done slices) :
    ∀ last ∈ slices.getLast?, last.end_time = finish ∧ last.cumulative_target = done + planned slices := by
  induction hlaid with
  | nil => exact fun _ hlast => by cases hlast
  | @cons start done slice rest _ _ _ hcumulative hrest ih =>
    intro last hlast
    cases rest with
    | nil =>
      cases hlast
      cases hrest
      exact ⟨rfl, by simp [hcumulative]⟩
    | cons next rest =>
      rw [List.getLast?_cons_cons] at hlast
      obtain ⟨hend, hsum⟩ := ih last hlast
      exact ⟨hend, by rw [hsum, hcumulative, planned_cons slice, add_assoc]⟩

/-- Where slices are split, those before end where those after begin. -/
theorem Laid.split {before after : List ScheduleSlice} (hlaid : Laid finish start done (before ++ after)) :
    ∃ middle, Laid middle start done before ∧ Laid finish middle (done + planned before) after := by
  induction before generalizing start done with
  | nil => exact ⟨start, .nil, by simpa using hlaid⟩
  | cons slice rest ih =>
    cases hlaid with
    | cons hbegin hforward hnonneg hcumulative hrest =>
      obtain ⟨middle, hbefore, hafter⟩ := ih hrest
      refine ⟨middle, .cons hbegin hforward hnonneg hcumulative hbefore, ?_⟩
      rwa [hcumulative, add_assoc, ← planned_cons] at hafter

theorem Laid.totalDue_before (hlaid : Laid finish start done slices) {ts : Timestamp} (hbefore : ts < start) :
    totalDue slices ts = 0 := by
  have hnone : ∀ slice ∈ slices, slice.due ts = 0 := fun slice hmem =>
    slice.due_of_lt (lt_of_lt_of_le hbefore (hlaid.bounds slice hmem).1)
  rw [totalDue, List.map_congr_left hnone]
  simp

theorem Laid.totalDue_after (hlaid : Laid finish start done slices) {ts : Timestamp} (hafter : finish ≤ ts) :
    totalDue slices ts = planned slices := by
  have hwhole : ∀ slice ∈ slices, slice.due ts = slice.target_quantity := fun slice hmem =>
    have ⟨_, hforward, hend⟩ := hlaid.bounds slice hmem
    slice.due_of_le (hforward.trans (hend.trans hafter)) (hend.trans hafter)
  rw [totalDue, List.map_congr_left hwhole]
  rfl

theorem Laid.totalDue_mono (hlaid : Laid finish start done slices) {ts later : Timestamp} (hle : ts ≤ later) :
    totalDue slices ts ≤ totalDue slices later :=
  List.sum_le_sum fun slice hmem => slice.due_mono (hlaid.nonneg slice hmem) hle

/-- Within the window one slice is under way. Those before it are due in full and
those after it not at all. -/
theorem Laid.under_way (hlaid : Laid finish start done slices) {ts : Timestamp} (hbegun : start ≤ ts)
    (hbefore : ts < finish) :
    ∃ slice ∈ slices, slices.find? (fun slice => ts < slice.end_time) = some slice ∧
      slice.begin_time ≤ ts ∧ ts < slice.end_time ∧
      (∀ other ∈ slices, other.begin_time ≤ ts → ts < other.end_time → other = slice) ∧
      slice.cumulative_target - slice.target_quantity + slice.due ts = done + totalDue slices ts := by
  induction hlaid with
  | nil => exact absurd hbegun (not_le.mpr hbefore)
  | @cons start done slice rest hbegin hforward hnonneg hcumulative hrest ih =>
    rcases lt_or_ge ts slice.end_time with hwithin | hended
    · refine ⟨slice, List.mem_cons_self, List.find?_cons_of_pos (by simpa using hwithin),
        hbegin.trans_le hbegun, hwithin, ?_, ?_⟩
      · refine List.forall_mem_cons.mpr ⟨fun _ _ => rfl, fun other hmem hbegun' _ => ?_⟩
        exact absurd ((hrest.bounds other hmem).1.trans hbegun') (not_le.mpr hwithin)
      · rw [totalDue_cons, hrest.totalDue_before hwithin, hcumulative]
        ring
    · obtain ⟨found, hmem, hfind, hbegun', hwithin, hunique, hdue⟩ := ih hended
      refine ⟨found, List.mem_cons_of_mem _ hmem, ?_, hbegun', hwithin, ?_, ?_⟩
      · rw [List.find?_cons_of_neg (by simpa using hended)]
        exact hfind
      · refine List.forall_mem_cons.mpr ⟨fun _ hlater => ?_, hunique⟩
        exact absurd hended (not_le.mpr hlater)
      · rw [hdue, totalDue_cons, slice.due_of_le (hbegin.trans_le hbegun) hended, hcumulative, add_assoc]

/-- A slice that takes time begins with all before it due and nothing of it. -/
theorem Laid.totalDue_begin {before after : List ScheduleSlice} {slice : ScheduleSlice}
    (hlaid : Laid finish start done (before ++ slice :: after)) (hlasts : slice.begin_time < slice.end_time) :
    totalDue (before ++ slice :: after) slice.begin_time = planned before := by
  obtain ⟨middle, hbefore, hfrom⟩ := hlaid.split
  have happend : totalDue (before ++ slice :: after) slice.begin_time =
      totalDue before slice.begin_time + totalDue (slice :: after) slice.begin_time := by
    simp [totalDue]
  cases hfrom with
  | cons hbegin _ _ _ hrest =>
    have hnothing : slice.due slice.begin_time = 0 := by
      rw [slice.due_of_mem (le_refl _) hlasts, sub_self]
      simp
    rw [happend, totalDue_cons, hnothing, hrest.totalDue_before hlasts, hbefore.totalDue_after hbegin.ge]
    ring

end

/-! ### The schedules -/

/-- Slices that fit into the window are laid end to end over it. -/
theorem layOut_laid {total : Qty} {begin_time end_time : Timestamp} {per : Duration} (hper : 0 ≤ per)
    {target : Qty} {targets : List Qty} (hnonneg : ∀ q ∈ target :: targets, 0 ≤ q) {index : Nat}
    {cumulative : Qty} (hfits : begin_time + per * (index + (targets.length + 1)) ≤ end_time)
    (hsum : cumulative + (target + targets.sum) = total) :
    Laid end_time (begin_time + per * index) cumulative
      (layOut total begin_time end_time per index cumulative (target :: targets)) := by
  induction targets generalizing target index cumulative with
  | nil =>
    have hends : begin_time + per * index ≤ end_time :=
      (Int.add_le_add_left (Int.mul_le_mul_of_nonneg_left (by simp) hper) _).trans hfits
    have htotal : total = cumulative + target := by simpa using hsum.symm
    rw [layOut, layOut]
    exact .cons rfl hends (hnonneg target List.mem_cons_self) htotal .nil
  | cons next rest ih =>
    obtain ⟨htarget, hrest⟩ := List.forall_mem_cons.mp hnonneg
    have hstep : begin_time + per * index ≤ begin_time + per * (index + 1) :=
      Int.add_le_add_left (Int.mul_le_mul_of_nonneg_left (Int.le_add_one (le_refl _)) hper) _
    have hlater : Laid end_time (begin_time + per * (index + 1 : Nat)) (cumulative + target)
        (layOut total begin_time end_time per (index + 1) (cumulative + target) (next :: rest)) := by
      refine ih hrest ?_ ?_
      · rwa [Int.natCast_succ, Int.add_assoc, Int.add_comm 1]
      · rw [← hsum, List.sum_cons, add_assoc]
    rw [layOut]
    exact .cons rfl hstep htarget rfl hlater

theorem planned_layOut (total : Qty) (begin_time end_time : Timestamp) (per : Duration) (index : Nat)
    (cumulative : Qty) (targets : List Qty) :
    planned (layOut total begin_time end_time per index cumulative targets) = targets.sum := by
  induction targets generalizing index cumulative with
  | nil => rfl
  | cons target rest ih => rw [layOut, planned_cons, ih, List.sum_cons]

/-- A schedule laid over a window, for a total. -/
structure ExecutionSchedule.LaidOver (s : ExecutionSchedule) (total : Qty) (begin_time end_time : Timestamp) :
    Prop where
  nonempty : s.slices ≠ []
  laid : Laid end_time begin_time 0 s.slices
  planned_eq : planned s.slices = total

open ExecutionSchedule

/-- Dividing the window truncates, so the slices fit into it. -/
theorem laidOver_of_targets (total : Qty) {begin_time end_time : Timestamp} (hwindow : begin_time < end_time)
    (targets : List Qty) (hsome : targets ≠ []) (hnonneg : ∀ q ∈ targets, 0 ≤ q)
    (hsum : targets.sum = total) :
    ExecutionSchedule.LaidOver
      { slices := layOut total begin_time end_time ((end_time - begin_time).tdiv targets.length) 0 0 targets }
      total begin_time end_time := by
  obtain ⟨target, rest, rfl⟩ := List.exists_cons_of_ne_nil hsome
  have hspan : 0 ≤ end_time - begin_time := sub_nonneg.mpr hwindow.le
  have hfits : (end_time - begin_time).tdiv (target :: rest).length * ((target :: rest).length : Nat) ≤
      end_time - begin_time := by
    rw [Int.tdiv_eq_ediv_of_nonneg hspan]
    exact Int.ediv_mul_le _ (Int.natCast_ne_zero.mpr (Nat.succ_ne_zero _))
  refine ⟨?_, ?_, (planned_layOut _ _ _ _ _ _ _).trans hsum⟩
  · rw [layOut]
    exact List.cons_ne_nil _ _
  · have hlaid : Laid end_time (begin_time + (end_time - begin_time).tdiv (target :: rest).length * (0 : Nat)) 0
        (layOut total begin_time end_time ((end_time - begin_time).tdiv (target :: rest).length) 0 0
          (target :: rest)) := by
      refine layOut_laid (Int.tdiv_nonneg hspan (Int.natCast_nonneg _)) hnonneg ?_ ?_
      · rw [Int.natCast_zero, Int.zero_add]
        exact (Int.add_le_add_left hfits begin_time).trans (le_of_eq (by ring))
      · rw [zero_add, ← hsum, List.sum_cons]
    simpa using hlaid

theorem ExecutionSchedule.twap_laidOver {total : Qty} {begin_time end_time : Timestamp} {slice_count : Nat}
    {s : ExecutionSchedule} (hok : twap total begin_time end_time slice_count = .ok s) :
    s.LaidOver total begin_time end_time := by
  unfold twap at hok
  split_ifs at hok with htotal hwindow hcount
  cases hok
  have hpos : 0 < total := pos_of_checked htotal
  obtain ⟨-, -, hwindow⟩ : _ ∧ _ ∧ begin_time < end_time := by simpa [not_or] using hwindow
  have hlaid := laidOver_of_targets total hwindow (List.replicate slice_count (total / slice_count)) ?_ ?_ ?_
  · rwa [List.length_replicate] at hlaid
  · simpa using hcount
  · intro q hq
    rw [List.eq_of_mem_replicate hq]
    exact div_nonneg hpos.le (Nat.cast_nonneg _)
  · rw [List.sum_replicate, nsmul_eq_mul]
    exact mul_div_cancel₀ total (Nat.cast_ne_zero.mpr hcount)

theorem ExecutionSchedule.vwap_laidOver {total : Qty} {begin_time end_time : Timestamp} {profile : List Rat}
    {s : ExecutionSchedule} (hok : vwap total begin_time end_time profile = .ok s) :
    s.LaidOver total begin_time end_time := by
  unfold vwap at hok
  split_ifs at hok with htotal hwindow hprofile hweights hsum
  cases hok
  have hpos : 0 < total := pos_of_checked htotal
  have hsumPos : 0 < profile.sum := not_le.mp hsum
  obtain ⟨-, -, hwindow⟩ : _ ∧ _ ∧ begin_time < end_time := by simpa [not_or] using hwindow
  have hlaid := laidOver_of_targets total hwindow (profile.map fun w => total * (w / profile.sum)) ?_ ?_ ?_
  · rwa [List.length_map] at hlaid
  · simpa using hprofile
  · refine List.forall_mem_map.mpr fun w hw => ?_
    have hweight : 0 ≤ w := by
      by_contra hneg
      exact hweights (List.any_eq_true.mpr ⟨w, hw, by simpa using hneg⟩)
    exact mul_nonneg hpos.le (div_nonneg hweight hsumPos.le)
  · have hshare : (profile.map fun w => total * (w / profile.sum)) = profile.map fun w => total / profile.sum * w :=
      List.map_congr_left fun w _ => by ring
    rw [hshare, List.sum_map_mul_left, List.map_id', div_mul_cancel₀ _ hsumPos.ne']

/-- The slice found is the only one at an instant of the window. -/
theorem ExecutionSchedule.LaidOver.slice_at_eq {s : ExecutionSchedule} {total : Qty}
    {begin_time end_time : Timestamp} (hlaid : s.LaidOver total begin_time end_time) {ts : Timestamp}
    (hbegun : begin_time ≤ ts) (hbefore : ts < end_time) :
    ∃ slice ∈ s.slices, s.slice_at ts = some slice ∧ slice.begin_time ≤ ts ∧ ts < slice.end_time ∧
      (∀ other ∈ s.slices, other.begin_time ≤ ts → ts < other.end_time → other = slice) ∧
      slice.cumulative_target - slice.target_quantity + slice.due ts = totalDue s.slices ts := by
  obtain ⟨slice, hmem, hfind, hbegun', hwithin, hunique, hdue⟩ := hlaid.laid.under_way hbegun hbefore
  refine ⟨slice, hmem, ?_, hbegun', hwithin, hunique, by rw [hdue, zero_add]⟩
  rw [slice_at, hfind]
  exact if_neg (not_lt.mpr hbegun')

/-- The first slice begins and the last ends with the window, with the total. -/
theorem ExecutionSchedule.LaidOver.ends {s : ExecutionSchedule} {total : Qty} {begin_time end_time : Timestamp}
    (hlaid : s.LaidOver total begin_time end_time) :
    ∃ first last, s.slices.head? = some first ∧ first.begin_time = begin_time ∧
      s.slices.getLast? = some last ∧ last.end_time = end_time ∧ last.cumulative_target = total := by
  have hlast := List.getLast?_eq_some_getLast hlaid.nonempty
  obtain ⟨hend, hcumulative⟩ := hlaid.laid.getLast _ hlast
  rw [hlaid.planned_eq, zero_add] at hcumulative
  obtain ⟨first, rest, hslices⟩ := List.exists_cons_of_ne_nil hlaid.nonempty
  have hlaid' := hlaid.laid
  rw [hslices] at hlaid'
  cases hlaid' with
  | cons hbegin => exact ⟨first, _, by rw [hslices, List.head?_cons], hbegin, hlast, hend, hcumulative⟩

/-- Interpolating within the slice under way gives what all slices are due. -/
theorem ExecutionSchedule.LaidOver.target_by_eq {s : ExecutionSchedule} {total : Qty}
    {begin_time end_time : Timestamp} (hlaid : s.LaidOver total begin_time end_time) (ts : Timestamp) :
    s.target_by ts = totalDue s.slices ts := by
  obtain ⟨first, last, hfirst, hbegin, hlast, hend, hcumulative⟩ := hlaid.ends
  rw [target_by, hfirst, hlast]
  dsimp only
  rcases lt_or_ge ts begin_time with hbefore | hbegun
  · rw [if_pos (hbegin ▸ hbefore), hlaid.laid.totalDue_before hbefore]
  rw [if_neg (not_lt.mpr (hbegin ▸ hbegun))]
  rcases le_or_gt end_time ts with hafter | hwithin
  · rw [if_pos (hend ▸ hafter), hcumulative, hlaid.laid.totalDue_after hafter, hlaid.planned_eq]
  rw [if_neg (not_le.mpr (hend ▸ hwithin))]
  obtain ⟨slice, -, hslice, hbegun', hbefore', -, hdue⟩ := hlaid.slice_at_eq hbegun hwithin
  obtain ⟨hspan, hlow, hhigh⟩ := slice.fraction_bounds hbegun' hbefore'
  rw [hslice, ← hdue, slice.due_of_mem hbegun' hbefore']
  dsimp only
  rw [if_pos hspan, min_eq_right hhigh, max_eq_right hlow]

/-- What a schedule is for: its slices divide the window and the total, and what
is due by an instant grows from nothing to the total along them. -/
structure ExecutionSchedule.Lawful (s : ExecutionSchedule) (total : Qty) (begin_time end_time : Timestamp) :
    Prop where
  contiguous : s.slices.IsChain fun slice next => slice.end_time = next.begin_time
  spans : s.slices.head?.map ScheduleSlice.begin_time = some begin_time ∧
    s.slices.getLast?.map ScheduleSlice.end_time = some end_time
  forward : ∀ slice ∈ s.slices, slice.begin_time ≤ slice.end_time
  nonneg : ∀ slice ∈ s.slices, 0 ≤ slice.target_quantity
  planned_eq : planned s.slices = total
  monotone : ∀ ts later, ts ≤ later → s.target_by ts ≤ s.target_by later
  before : ∀ ts, ts < begin_time → s.target_by ts = 0
  after : ∀ ts, end_time ≤ ts → s.target_by ts = total
  /-- Of slices that end at one instant the last counts. -/
  boundary : ∀ earlier slice later, s.slices = earlier ++ slice :: later → slice.begin_time < slice.end_time →
    s.target_by slice.begin_time = (earlier.getLast?.map ScheduleSlice.cumulative_target).getD 0
  located : ∀ ts, begin_time ≤ ts → ts < end_time →
    ∃ slice ∈ s.slices, s.slice_at ts = some slice ∧ slice.begin_time ≤ ts ∧ ts < slice.end_time ∧
      ∀ other ∈ s.slices, other.begin_time ≤ ts → ts < other.end_time → other = slice

theorem ExecutionSchedule.LaidOver.lawful {s : ExecutionSchedule} {total : Qty} {begin_time end_time : Timestamp}
    (hlaid : s.LaidOver total begin_time end_time) : s.Lawful total begin_time end_time where
  contiguous := hlaid.laid.contiguous
  spans := by
    obtain ⟨first, last, hfirst, hbegin, hlast, hend, -⟩ := hlaid.ends
    rw [hfirst, hlast, Option.map_some, Option.map_some, hbegin, hend]
    exact ⟨rfl, rfl⟩
  forward slice hmem := (hlaid.laid.bounds slice hmem).2.1
  nonneg := hlaid.laid.nonneg
  planned_eq := hlaid.planned_eq
  monotone ts later hle := by
    rw [hlaid.target_by_eq, hlaid.target_by_eq]
    exact hlaid.laid.totalDue_mono hle
  before ts hbefore := by rw [hlaid.target_by_eq, hlaid.laid.totalDue_before hbefore]
  after ts hafter := by rw [hlaid.target_by_eq, hlaid.laid.totalDue_after hafter, hlaid.planned_eq]
  boundary earlier slice later hslices hlasts := by
    have hlaid' := hlaid.laid
    rw [hslices] at hlaid'
    obtain ⟨middle, hearlier, -⟩ := hlaid'.split
    rw [hlaid.target_by_eq, hslices, hlaid'.totalDue_begin hlasts]
    cases hlast : earlier.getLast? with
    | none =>
      rw [List.getLast?_eq_none_iff.mp hlast]
      rfl
    | some last =>
      rw [Option.map_some, Option.getD_some, (hearlier.getLast last hlast).2, zero_add]
  located ts hbegun hbefore := by
    obtain ⟨slice, hmem, hslice, hbegun', hbefore', hunique, -⟩ := hlaid.slice_at_eq hbegun hbefore
    exact ⟨slice, hmem, hslice, hbegun', hbefore', hunique⟩

/-- Every schedule that is made is lawful, be the window shorter than it has
slices or a weight zero. -/
theorem ExecutionSchedule.schedules_lawful {total : Qty} {begin_time end_time : Timestamp} {s : ExecutionSchedule}
    (hmade : (∃ slice_count, twap total begin_time end_time slice_count = .ok s) ∨
      ∃ profile, vwap total begin_time end_time profile = .ok s) :
    s.Lawful total begin_time end_time := by
  rcases hmade with ⟨slice_count, hok⟩ | ⟨profile, hok⟩
  · exact (twap_laidOver hok).lawful
  · exact (vwap_laidOver hok).lawful

/-- Seven nanoseconds over three weights, one of them zero. -/
theorem ExecutionSchedule.schedules_lawful_zero_weight :
    ∃ s, vwap 100 0 7 [1, 0, 3] = .ok s ∧ s.Lawful 100 0 7 := by
  have hmade : ∃ s, vwap 100 0 7 [1, 0, 3] = .ok s := by
    unfold vwap
    rw [if_neg (by decide), if_neg (by decide), if_neg (by decide), if_neg (by decide), if_neg (by decide +kernel)]
    exact ⟨_, rfl⟩
  obtain ⟨s, hok⟩ := hmade
  exact ⟨s, hok, schedules_lawful (.inr ⟨_, hok⟩)⟩

/-- Where slices have no length, a boundary is passed by several at once. -/
theorem ExecutionSchedule.boundary_skipped :
    ∃ s slice next rest, twap 3 0 1 3 = .ok s ∧ s.slices = slice :: next :: rest ∧
      slice.end_time = next.begin_time ∧ s.target_by next.begin_time ≠ slice.cumulative_target :=
  ⟨_, _, _, _, rfl, rfl, rfl, by decide +kernel⟩

end ptl.algo
