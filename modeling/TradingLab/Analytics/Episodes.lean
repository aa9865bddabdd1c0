import TradingLab.Analytics.Metrics

open ptl.portfolio (EquityPoint)
open ptl.accounting (Trade)
open ptl.features (MathFunctions)

namespace ptl.analytics

open DrawdownTracker

/-! ### One observation -/

namespace DrawdownTracker

variable (t : DrawdownTracker) (ts : Timestamp) (equity : Notional)

/-- An observation at or above the peak, or the first. -/
def Rises : Prop := t.have_peak = false ∨ t.peak ≤ equity

instance : Decidable (t.Rises equity) := inferInstanceAs (Decidable (_ ∨ _))

/-- The peak after an observation. -/
def top : Notional := if t.Rises equity then equity else t.peak

/-- How far below that peak the observation is. -/
def drop : Rat := if 0 < t.top equity then 1 - equity / t.top equity else 0

variable {t equity}

theorem observe_rise (hrises : t.Rises equity) :
    t.observe ts equity = (({ t with last_ts := ts } : DrawdownTracker).rise ts equity).record ts equity := by
  rw [observe]
  dsimp only
  rw [if_pos (by simpa [Rises] using hrises)]

theorem observe_fall (hfalls : ¬ t.Rises equity) :
    t.observe ts equity = (({ t with last_ts := ts } : DrawdownTracker).fall ts equity).record ts equity := by
  rw [observe]
  dsimp only
  rw [if_neg (by simpa [Rises] using hfalls)]

theorem drop_of_rises (hrises : t.Rises equity) : t.drop equity = 0 := by
  rw [drop, top, if_pos hrises]
  split
  · rename_i hpos
    rw [div_self hpos.ne', sub_self]
  · rfl

variable (equity) in
/-- What an observation does to the peak and the worst fall. -/
theorem observe_summary (hnonneg : 0 ≤ t.max_) :
    (t.observe ts equity).have_peak = true ∧ (t.observe ts equity).peak = t.top equity ∧
      (t.observe ts equity).current = t.drop equity ∧
      (t.observe ts equity).max_ = max t.max_ (t.drop equity) ∧
      (t.observe ts equity).max_trough_time = if t.max_ < t.drop equity then ts else t.max_trough_time := by
  by_cases hrises : t.Rises equity
  · rw [observe_rise ts hrises, drop_of_rises hrises, max_eq_left hnonneg, if_neg (not_lt.mpr hnonneg), top,
      if_pos hrises]
    exact ⟨rfl, rfl, rfl, rfl, rfl⟩
  · have hpeak : t.have_peak = true := by
      cases hpeak : t.have_peak with
      | true => rfl
      | false => exact absurd (.inl hpeak) hrises
    have htop : t.top equity = t.peak := by rw [top, if_neg hrises]
    have hdrop : (if 0 < t.peak then 1 - equity / t.peak else 0) = t.drop equity := by rw [drop, htop]
    rw [observe_fall ts hrises]
    refine ⟨hpeak, htop.symm, hdrop, ?_, ?_⟩
    · simp only [record, fall, hdrop]
      split
      · rename_i hless
        rw [max_eq_right hless.le]
      · rename_i hnot
        rw [max_eq_left (not_lt.mp hnot)]
    · simp only [record, fall, hdrop]

/-- A drop of an equity that is not negative is a fraction. -/
theorem drop_mem (hequity : 0 ≤ equity) : 0 ≤ t.drop equity ∧ t.drop equity ≤ 1 := by
  by_cases hrises : t.Rises equity
  · rw [drop_of_rises hrises]
    exact ⟨le_rfl, zero_le_one⟩
  · have hbelow : equity < t.peak := not_le.mp fun hle => hrises (.inr hle)
    have hpos : 0 < t.peak := hequity.trans_lt hbelow
    rw [drop, top, if_neg hrises, if_pos hpos, sub_nonneg, div_le_one hpos, sub_le_self_iff]
    exact ⟨hbelow.le, div_nonneg hequity hpos.le⟩

end DrawdownTracker

/-! ### Three passes over one curve -/

/-- The tracker and the three scans have seen the same points. -/
structure Agreed (t : DrawdownTracker) (d : Option Rat × Rat) (s : DrawdownScan) (w : Rat × Rat) : Prop where
  fresh : t.have_peak = false → d.1 = none ∧ s.peak = none ∧ w.1 = -1
  started : t.have_peak = true → d.1 = some t.peak ∧ s.peak = some t.peak ∧ w.1 = t.peak
  worst_eq : d.2 = t.max_ ∧ s.worst = t.max_ ∧ w.2 = t.max_
  trough_eq : s.trough = t.max_trough_time
  fraction : 0 ≤ t.max_ ∧ t.max_ ≤ 1

variable {t : DrawdownTracker} {d : Option Rat × Rat} {s : DrawdownScan} {w : Rat × Rat}

theorem Agreed.start : Agreed {} (none, 0) {} (-1, 0) :=
  ⟨fun _ => ⟨rfl, rfl, rfl⟩, fun h => (by cases h), ⟨rfl, rfl, rfl⟩, rfl, le_rfl, zero_le_one⟩

/-- The three scans have the peak the tracker has. -/
theorem Agreed.peaks (hagreed : Agreed t d s w) {p : EquityPoint} (hequity : 0 ≤ p.equity) (i : Nat) :
    d.1.elim p.equity (fun peak => max peak p.equity) = t.top p.equity ∧
      (s.raise i p).peak = some (t.top p.equity) ∧ max w.1 p.equity = t.top p.equity := by
  cases hpeak : t.have_peak with
  | false =>
    obtain ⟨hd, hs, hw⟩ := hagreed.fresh hpeak
    have htop : t.top p.equity = p.equity := if_pos (.inl hpeak)
    have hbelow : (-1 : Rat) ≤ p.equity := (by decide : (-1 : Rat) ≤ 0).trans hequity
    rw [hd, hw, htop, DrawdownScan.raise, hs, max_eq_right hbelow]
    exact ⟨rfl, rfl, rfl⟩
  | true =>
    obtain ⟨hd, hs, hw⟩ := hagreed.started hpeak
    have htop : t.top p.equity = max t.peak p.equity := by
      rw [top]
      split
      · rename_i hrises
        have hle := hrises.resolve_left (by rw [hpeak]; exact Bool.noConfusion)
        rw [max_eq_right hle]
      · rename_i hfalls
        rw [max_eq_left (not_le.mp fun hle => hfalls (.inr hle)).le]
    rw [hd, hw, htop, DrawdownScan.raise, hs, Option.all_some]
    refine ⟨rfl, ?_, rfl⟩
    split
    · rename_i hless
      rw [max_eq_right (of_decide_eq_true hless).le]
    · rename_i hnot
      rw [hs, max_eq_left (not_lt.mp fun hless => hnot (decide_eq_true hless))]

theorem DrawdownScan.raise_kept (s : DrawdownScan) (i : Nat) (p : EquityPoint) :
    (s.raise i p).worst = s.worst ∧ (s.raise i p).trough = s.trough := by
  rw [DrawdownScan.raise]
  split
  · exact ⟨rfl, rfl⟩
  · exact ⟨rfl, rfl⟩

/-- All three compare with the same drop, which is zero where the peak is not positive. -/
theorem DrawdownTracker.max_drop (t : DrawdownTracker) (equity : Notional) {worst : Rat} (hworst : 0 ≤ worst) :
    (if 0 < t.top equity then max worst (1 - equity / t.top equity) else worst) = max worst (t.drop equity) := by
  rw [drop]
  split
  · rfl
  · exact (max_eq_left hworst).symm

theorem DrawdownTracker.deeper_iff (t : DrawdownTracker) (equity : Notional) (hnonneg : 0 ≤ t.max_) :
    (0 < t.top equity ∧ t.max_ < 1 - equity / t.top equity) ↔ t.max_ < t.drop equity := by
  rw [drop]
  split
  · rename_i hpos
    exact and_iff_right hpos
  · rename_i hnot
    exact ⟨fun h => absurd h.1 hnot, fun h => absurd h (not_lt.mpr hnonneg)⟩

/-- One point more. -/
theorem Agreed.step (hagreed : Agreed t d s w) {p : EquityPoint} (hequity : 0 ≤ p.equity)
    (curve : List EquityPoint) (i : Nat) :
    Agreed (t.observe p.ts p.equity) (max_drawdown_step d p.equity) (s.step curve i p) (window_step w p) := by
  obtain ⟨hdpeak, hspeak, hwpeak⟩ := hagreed.peaks hequity i
  obtain ⟨hdworst, hsworst, hwworst⟩ := hagreed.worst_eq
  obtain ⟨hnonneg, hone⟩ := hagreed.fraction
  obtain ⟨hhave, hpeak, -, hmax, htrough⟩ := observe_summary p.ts p.equity hnonneg
  obtain ⟨hdropnonneg, hdropone⟩ := drop_mem (t := t) hequity
  have hdeeper := t.deeper_iff p.equity hnonneg
  obtain ⟨hworst, htroughkept⟩ := s.raise_kept i p
  refine ⟨fun hfalse => ?_, fun _ => ?_, ⟨?_, ?_, ?_⟩, ?_, ?_⟩
  · rw [hhave] at hfalse
    cases hfalse
  · rw [hpeak, max_drawdown_step, window_step]
    refine ⟨congrArg some hdpeak, ?_, hwpeak⟩
    rw [DrawdownScan.step]
    split
    · exact hspeak
    · exact hspeak
  · rw [max_drawdown_step, hmax]
    dsimp only
    rw [hdpeak, hdworst, t.max_drop p.equity hnonneg]
  · rw [DrawdownScan.step, hmax]
    rw [hspeak, Option.getD_some, hworst, hsworst]
    by_cases hless : t.max_ < t.drop p.equity
    · have hpos := (hdeeper.mpr hless).1
      rw [if_pos (hdeeper.mpr hless), max_eq_right hless.le, drop, if_pos hpos]
    · rw [if_neg (mt hdeeper.mp hless), max_eq_left (not_lt.mp hless), hworst, hsworst]
  · rw [window_step, hmax]
    dsimp only
    rw [hwpeak, hwworst, t.max_drop p.equity hnonneg]
  · rw [DrawdownScan.step, htrough]
    rw [hspeak, Option.getD_some, hworst, hsworst]
    by_cases hless : t.max_ < t.drop p.equity
    · rw [if_pos (hdeeper.mpr hless), if_pos hless]
    · rw [if_neg (mt hdeeper.mp hless), if_neg hless, htroughkept, hagreed.trough_eq]
  · rw [hmax]
    exact ⟨hnonneg.trans (le_max_left _ _), max_le hone hdropone⟩

/-! ### Episodes -/

/-- An episode is of these consecutive points below its peak: none is further below
than its depth, and its trough is one of them. -/
structure DrawdownEpisode.Holds (d : DrawdownEpisode) (run : List UnderwaterPoint) : Prop where
  since : ∀ p ∈ run, d.peak_time ≤ p.ts
  below : ∀ p ∈ run, p.peak = d.peak_equity ∧ p.equity < p.peak
  deepest : ∀ p ∈ run, p.drawdown ≤ d.depth
  attained : ∃ p ∈ run, p.ts = d.trough_time ∧ p.equity = d.trough_equity ∧ p.drawdown = d.depth

/-- The points below a peak are those of the closed episodes, one after the other,
and of the open one. -/
structure DrawdownTracker.Episodic (t : DrawdownTracker) (closed : List (List UnderwaterPoint))
    (run : List UnderwaterPoint) : Prop where
  flatten_eq : closed.flatten ++ run = t.curve.filter fun p => 0 < p.drawdown
  holds : List.Forall₂ DrawdownEpisode.Holds t.episodes closed
  recovered : ∀ d ∈ t.episodes, is_set d.recovery_time = true ∧ d.trough_time ≤ d.recovery_time ∧
    d.recovery_time ≤ t.peak_time
  ordered : t.episodes.Pairwise fun d d' => d.recovery_time ≤ d'.peak_time
  outside : t.in_episode = false → run = []
  inside : t.in_episode = true → t.active.Holds run
  active_eq : t.in_episode = true → t.active.peak_time = t.peak_time ∧ t.active.peak_equity = t.peak ∧
    t.active.depth = 1 - t.active.trough_equity / t.peak ∧ t.active.trough_time ≤ t.last_ts
  idle : t.have_peak = false → t.episodes = [] ∧ t.in_episode = false
  dated : t.have_peak = true → is_set t.last_ts = true ∧ t.peak_time ≤ t.last_ts
  shallower : ∀ d ∈ t.all_episodes, d.depth ≤ t.max_
  reached : t.max_ = 0 ∨ ∃ d ∈ t.all_episodes, d.depth = t.max_

theorem DrawdownTracker.Episodic.start : DrawdownTracker.Episodic {} [] [] where
  flatten_eq := rfl
  holds := .nil
  recovered d hd := absurd hd List.not_mem_nil
  ordered := .nil
  outside _ := rfl
  inside h := by cases h
  active_eq h := by cases h
  idle _ := ⟨rfl, rfl⟩
  dated h := by cases h
  shallower d hd := absurd hd List.not_mem_nil
  reached := .inl rfl

/-- The episode in progress either has its trough at the new point, or is what it
was, and no deeper than before. -/
theorem DrawdownTracker.deepen_spec {t : DrawdownTracker} (ts : Timestamp) (equity : Notional) (hpos : 0 < t.peak)
    (hactive : t.in_episode = true → t.active.peak_time = t.peak_time ∧ t.active.peak_equity = t.peak ∧
      t.active.depth = 1 - t.active.trough_equity / t.peak) :
    (t.deepen ts equity (1 - equity / t.peak)).peak_time = t.peak_time ∧
      (t.deepen ts equity (1 - equity / t.peak)).peak_equity = t.peak ∧
      (((t.deepen ts equity (1 - equity / t.peak)).trough_time = ts ∧
          (t.deepen ts equity (1 - equity / t.peak)).trough_equity = equity ∧
          (t.deepen ts equity (1 - equity / t.peak)).depth = 1 - equity / t.peak ∧
          (t.in_episode = true → t.active.depth ≤ 1 - equity / t.peak)) ∨
        (t.in_episode = true ∧ t.deepen ts equity (1 - equity / t.peak) = t.active ∧
          1 - equity / t.peak ≤ t.active.depth)) := by
  rw [deepen]
  cases hin : t.in_episode with
  | false =>
    rw [if_pos (by simp)]
    exact ⟨rfl, rfl, .inl ⟨rfl, rfl, rfl, fun h => (by cases h)⟩⟩
  | true =>
    obtain ⟨htime, hpeak, hdepth⟩ := hactive hin
    rw [if_neg (by simp)]
    by_cases hless : equity < t.active.trough_equity
    · rw [if_pos hless]
      refine ⟨htime, hpeak, .inl ⟨rfl, rfl, rfl, fun _ => ?_⟩⟩
      rw [hdepth, sub_le_sub_iff_left]
      exact div_le_div_of_nonneg_right hless.le hpos.le
    · rw [if_neg hless]
      refine ⟨htime, hpeak, .inr ⟨rfl, rfl, ?_⟩⟩
      rw [hdepth, sub_le_sub_iff_left]
      exact div_le_div_of_nonneg_right (not_lt.mp hless) hpos.le

section Steps

variable {t : DrawdownTracker} {closed : List (List UnderwaterPoint)} {run : List UnderwaterPoint}
  {ts : Timestamp} {equity : Notional}

/-- What has recovered did so before any later point. -/
theorem DrawdownTracker.Episodic.recovered_by (hepisodic : t.Episodic closed run)
    (hnext : is_set t.last_ts = true → t.last_ts ≤ ts) :
    ∀ d ∈ t.episodes, is_set d.recovery_time = true ∧ d.trough_time ≤ d.recovery_time ∧ d.recovery_time ≤ ts := by
  intro d hd
  obtain ⟨hrecovery, htrough, hbefore⟩ := hepisodic.recovered d hd
  have hpeak : t.have_peak = true := by
    by_contra hnone
    rw [(hepisodic.idle (by simpa using hnone)).1] at hd
    exact absurd hd List.not_mem_nil
  obtain ⟨hlast, hdated⟩ := hepisodic.dated hpeak
  exact ⟨hrecovery, htrough, hbefore.trans (hdated.trans (hnext hlast))⟩

variable (t ts equity) in
/-- The point a rise records is not below its peak. -/
theorem DrawdownTracker.rise_curve :
    ((({ t with last_ts := ts } : DrawdownTracker).rise ts equity).record ts equity).curve.filter
      (fun p => 0 < p.drawdown) = t.curve.filter fun p => 0 < p.drawdown := by
  simp [record, rise, List.filter_append]

theorem DrawdownTracker.Episodic.rise_idle (hepisodic : t.Episodic closed run) (hset : is_set ts = true)
    (hnext : is_set t.last_ts = true → t.last_ts ≤ ts) (hin : t.in_episode = false) :
    ((({ t with last_ts := ts } : DrawdownTracker).rise ts equity).record ts equity).Episodic closed [] := by
  have hall : t.all_episodes = t.episodes := by
    rw [all_episodes, hin]
    exact List.append_nil _
  have hrun := hepisodic.outside hin
  have hearlier := hepisodic.recovered_by hnext
  refine ⟨?_, ?_, ?_, ?_, fun _ => rfl, fun h => (by cases h), fun h => (by cases h), fun h => (by cases h),
    fun _ => ⟨hset, le_rfl⟩, ?_, ?_⟩
  · rw [rise_curve, ← hepisodic.flatten_eq, hrun]
  · simpa [record, rise, hin] using hepisodic.holds
  · simpa [record, rise, hin] using hearlier
  · simpa [record, rise, hin] using hepisodic.ordered
  · simpa [record, rise, all_episodes, hin] using
      hall ▸ hepisodic.shallower
  · simpa [record, rise, all_episodes, hin] using
      hall ▸ hepisodic.reached

/-- A rise closes the episode in progress. -/
theorem DrawdownTracker.Episodic.rise_closing (hepisodic : t.Episodic closed run) (hset : is_set ts = true)
    (hnext : is_set t.last_ts = true → t.last_ts ≤ ts) (hin : t.in_episode = true) :
    ((({ t with last_ts := ts } : DrawdownTracker).rise ts equity).record ts equity).Episodic (closed ++ [run]) [] := by
  obtain ⟨hpeaktime, -, -, htrough⟩ := hepisodic.active_eq hin
  have hpeak : t.have_peak = true := by
    by_contra hnone
    rw [(hepisodic.idle (by simpa using hnone)).2] at hin
    cases hin
  have hall : t.all_episodes = t.episodes ++ [t.active] := by
    rw [all_episodes, hin]
    rfl
  have hearlier := hepisodic.recovered_by hnext
  have hholds := hepisodic.inside hin
  have hclosing : DrawdownEpisode.Holds { t.active with recovery_time := ts } run := { hholds with }
  have hshallower := hepisodic.shallower
  have hreached := hepisodic.reached
  rw [hall] at hshallower hreached
  refine ⟨?_, ?_, ?_, ?_, fun _ => rfl, fun h => (by cases h), fun h => (by cases h), fun h => (by cases h),
    fun _ => ⟨hset, le_rfl⟩, ?_, ?_⟩
  · rw [rise_curve, ← hepisodic.flatten_eq, List.flatten_append, List.flatten_singleton,
      List.append_nil]
  · simp only [record, rise, hin, if_true]
    exact List.rel_append hepisodic.holds (.cons hclosing .nil)
  · simp only [record, rise, hin, if_true, List.forall_mem_append,
      List.forall_mem_singleton]
    exact ⟨hearlier, hset, htrough.trans (hnext (hepisodic.dated hpeak).1), le_rfl⟩
  · simp only [record, rise, hin, if_true]
    refine List.pairwise_append.mpr ⟨hepisodic.ordered, List.pairwise_singleton _ _, fun d hd d' hd' => ?_⟩
    rw [List.mem_singleton.mp hd']
    exact hpeaktime ▸ (hepisodic.recovered d hd).2.2
  · intro d hd
    simp only [record, rise, all_episodes, hin, if_true,
      Bool.false_eq_true, if_false, List.append_nil, List.mem_append, List.mem_singleton] at hd
    obtain hd | rfl := hd
    · exact hshallower d (List.mem_append_left _ hd)
    · exact hshallower t.active (List.mem_append_right _ List.mem_cons_self)
  · obtain hzero | ⟨d, hd, hdepth⟩ := hreached
    · exact .inl hzero
    · right
      obtain hd | hd := List.mem_append.mp hd
      · refine ⟨d, ?_, hdepth⟩
        simp [record, rise, all_episodes, hin, hd]
      · refine ⟨{ t.active with recovery_time := ts }, ?_, ?_⟩
        · simp [record, rise, all_episodes, hin]
        · rw [← List.mem_singleton.mp hd]
          exact hdepth

theorem DrawdownTracker.Episodic.rise (hepisodic : t.Episodic closed run) (hset : is_set ts = true)
    (hnext : is_set t.last_ts = true → t.last_ts ≤ ts) :
    ∃ closed' run', ((({ t with last_ts := ts } : DrawdownTracker).rise ts equity).record ts equity).Episodic
      closed' run' := by
  obtain hin | hin := Bool.dichotomy t.in_episode
  · exact ⟨closed, [], hepisodic.rise_idle hset hnext hin⟩
  · exact ⟨closed ++ [run], [], hepisodic.rise_closing hset hnext hin⟩

/-- The point a fall records. -/
def DrawdownTracker.fallen (t : DrawdownTracker) (ts : Timestamp) (equity : Notional) : UnderwaterPoint where
  ts := ts
  drawdown := 1 - equity / t.peak
  equity := equity
  peak := t.peak
  periods_underwater := t.underwater + 1

/-- What a fall below a positive peak writes. -/
structure DrawdownTracker.FallsTo (t : DrawdownTracker) (ts : Timestamp) (equity : Notional)
    (t' : DrawdownTracker) : Prop where
  curve_eq : t'.curve = t.curve ++ [t.fallen ts equity]
  active_eq : t'.active = t.deepen ts equity (1 - equity / t.peak)
  max_eq : t'.max_ = max t.max_ (1 - equity / t.peak)
  in_episode : t'.in_episode = true
  episodes_eq : t'.episodes = t.episodes
  peak_eq : t'.peak = t.peak
  peak_time_eq : t'.peak_time = t.peak_time
  have_peak_eq : t'.have_peak = t.have_peak
  last_ts_eq : t'.last_ts = ts

variable (t ts equity) in
theorem DrawdownTracker.falls_to (hpos : 0 < t.peak) :
    t.FallsTo ts equity ((({ t with last_ts := ts } : DrawdownTracker).fall ts equity).record ts equity) := by
  have hcurrent : (if 0 < t.peak then 1 - equity / t.peak else 0) = 1 - equity / t.peak := if_pos hpos
  refine ⟨?_, ?_, ?_, rfl, rfl, rfl, rfl, rfl, rfl⟩
  · simp only [record, fall, fallen, hcurrent]
  · simp only [record, fall, hcurrent]
    rfl
  · simp only [record, fall, hcurrent]
    split
    · rename_i hless
      rw [max_eq_right hless.le]
    · rename_i hnot
      rw [max_eq_left (not_lt.mp hnot)]

theorem DrawdownTracker.Episodic.in_progress (hepisodic : t.Episodic closed run) (hin : t.in_episode = true) :
    t.active.peak_time = t.peak_time ∧ t.active.peak_equity = t.peak ∧
      t.active.depth = 1 - t.active.trough_equity / t.peak := by
  obtain ⟨htime, hpeak, hdepth, -⟩ := hepisodic.active_eq hin
  exact ⟨htime, hpeak, hdepth⟩

/-- The episode in progress, one point longer. -/
theorem DrawdownTracker.Episodic.deepen_holds (hepisodic : t.Episodic closed run) (hpos : 0 < t.peak)
    (hbelow : equity < t.peak) (hsince : t.peak_time ≤ ts) :
    (t.deepen ts equity (1 - equity / t.peak)).Holds (run ++ [t.fallen ts equity]) := by
  obtain ⟨htime, hpeak, hcases⟩ := deepen_spec ts equity hpos hepisodic.in_progress
  have hrun : ∀ p ∈ run, t.in_episode = true ∧ t.active.Holds run := by
    intro p hp
    obtain hin | hin := Bool.dichotomy t.in_episode
    · rw [hepisodic.outside hin] at hp
      exact absurd hp List.not_mem_nil
    · exact ⟨hin, hepisodic.inside hin⟩
  have holder : ∀ p ∈ run, t.peak_time ≤ p.ts ∧ (p.peak = t.peak ∧ p.equity < p.peak) ∧
      p.drawdown ≤ t.active.depth := by
    intro p hp
    obtain ⟨hin, hholds⟩ := hrun p hp
    obtain ⟨hptime, hppeak, -⟩ := hepisodic.in_progress hin
    exact ⟨hptime ▸ hholds.since p hp, hppeak ▸ hholds.below p hp, hholds.deepest p hp⟩
  refine ⟨fun p hp => ?_, fun p hp => ?_, fun p hp => ?_, ?_⟩
  · rw [htime]
    obtain hp | hp := List.mem_append.mp hp
    · exact (holder p hp).1
    · rw [List.mem_singleton.mp hp]
      exact hsince
  · rw [hpeak]
    obtain hp | hp := List.mem_append.mp hp
    · exact (holder p hp).2.1
    · rw [List.mem_singleton.mp hp]
      exact ⟨rfl, hbelow⟩
  · obtain ⟨-, -, hdepth, hdeeper⟩ | ⟨hin, hsame, hshallow⟩ := hcases
    · rw [hdepth]
      obtain hp | hp := List.mem_append.mp hp
      · exact (holder p hp).2.2.trans (hdeeper (hrun p hp).1)
      · rw [List.mem_singleton.mp hp]
        exact le_rfl
    · rw [hsame]
      obtain hp | hp := List.mem_append.mp hp
      · exact (holder p hp).2.2
      · rw [List.mem_singleton.mp hp]
        exact hshallow
  · obtain ⟨htrough, hlow, hdepth, -⟩ | ⟨hin, hsame, -⟩ := hcases
    · exact ⟨t.fallen ts equity, List.mem_append_right _ List.mem_cons_self, htrough.symm, hlow.symm, hdepth.symm⟩
    · obtain ⟨p, hp, hattained⟩ := (hepisodic.inside hin).attained
      rw [hsame]
      exact ⟨p, List.mem_append_left _ hp, hattained⟩

/-- The maximum stays the largest depth of all episodes. -/
theorem DrawdownTracker.Episodic.deepest (hepisodic : t.Episodic closed run) (ts : Timestamp) (hpos : 0 < t.peak)
    (hbelow : equity < t.peak) :
    (∀ d ∈ t.episodes ++ [t.deepen ts equity (1 - equity / t.peak)], d.depth ≤ max t.max_ (1 - equity / t.peak)) ∧
      ∃ d ∈ t.episodes ++ [t.deepen ts equity (1 - equity / t.peak)], d.depth = max t.max_ (1 - equity / t.peak) := by
  obtain ⟨-, -, hcases⟩ := deepen_spec ts equity hpos hepisodic.in_progress
  have hdrop : 0 < 1 - equity / t.peak := by
    rw [sub_pos, div_lt_one hpos]
    exact hbelow
  have hactiveall : t.in_episode = true → t.active ∈ t.all_episodes := by
    intro hin
    rw [all_episodes, if_pos hin]
    exact List.mem_append_right _ List.mem_cons_self
  constructor
  · refine List.forall_mem_append.mpr ⟨fun d hd => ?_, List.forall_mem_singleton.mpr ?_⟩
    · exact (hepisodic.shallower d (List.mem_append_left _ hd)).trans (le_max_left _ _)
    · obtain ⟨-, -, hdepth, -⟩ | ⟨hin, hsame, -⟩ := hcases
      · rw [hdepth]
        exact le_max_right _ _
      · rw [hsame]
        exact (hepisodic.shallower _ (hactiveall hin)).trans (le_max_left _ _)
  by_cases hless : t.max_ < 1 - equity / t.peak
  · refine ⟨_, List.mem_append_right _ List.mem_cons_self, ?_⟩
    obtain ⟨-, -, hdepth, -⟩ | ⟨hin, -, hshallow⟩ := hcases
    · rw [hdepth, max_eq_right hless.le]
    · exact absurd ((hless.trans_le hshallow).trans_le (hepisodic.shallower _ (hactiveall hin))) (lt_irrefl _)
  · rw [max_eq_left (not_lt.mp hless)]
    obtain hzero | ⟨d, hd, hdepth⟩ := hepisodic.reached
    · -- Nothing was below a peak yet, so this fall is a deeper one.
      rw [hzero] at hless
      exact absurd hdrop hless
    obtain hd | hd := List.mem_append.mp hd
    · exact ⟨d, List.mem_append_left _ hd, hdepth⟩
    refine ⟨_, List.mem_append_right _ List.mem_cons_self, ?_⟩
    obtain hin | hin := Bool.dichotomy t.in_episode
    · rw [hin] at hd
      exact absurd hd List.not_mem_nil
    · rw [if_pos hin, List.mem_singleton] at hd
      subst hd
      obtain ⟨-, -, hnew, hdeeper⟩ | ⟨-, hsame, -⟩ := hcases
      · rw [hnew, ← hdepth]
        exact le_antisymm (hdepth ▸ not_lt.mp hless) (hdeeper hin)
      · rw [hsame]
        exact hdepth

/-- A fall opens an episode or prolongs the one in progress. -/
theorem DrawdownTracker.Episodic.fall (hepisodic : t.Episodic closed run) (hset : is_set ts = true)
    (hnext : is_set t.last_ts = true → t.last_ts ≤ ts) (hpeak : t.have_peak = true) (hpos : 0 < t.peak)
    (hbelow : equity < t.peak) :
    ((({ t with last_ts := ts } : DrawdownTracker).fall ts equity).record ts equity).Episodic closed
      (run ++ [t.fallen ts equity]) := by
  obtain ⟨hlast, hdated⟩ := hepisodic.dated hpeak
  have hsince : t.peak_time ≤ ts := hdated.trans (hnext hlast)
  have hholds := hepisodic.deepen_holds hpos hbelow hsince
  obtain ⟨htime, hpeakeq, hcases⟩ := deepen_spec ts equity hpos hepisodic.in_progress
  obtain ⟨hshallower, hreached⟩ := hepisodic.deepest ts hpos hbelow
  have hfall := t.falls_to ts equity hpos
  generalize ((({ t with last_ts := ts } : DrawdownTracker).fall ts equity).record ts equity) = t' at hfall ⊢
  have hall : t'.all_episodes = t.episodes ++ [t.deepen ts equity (1 - equity / t.peak)] := by
    rw [all_episodes, hfall.in_episode, hfall.episodes_eq, hfall.active_eq]
    rfl
  refine ⟨?_, ?_, ?_, ?_, fun hout => ?_, fun _ => ?_, fun _ => ?_, fun hidle => ?_, fun _ => ?_, ?_, .inr ?_⟩
  · have hdrop : 0 < 1 - equity / t.peak := by
      rw [sub_pos, div_lt_one hpos]
      exact hbelow
    have hkept : [t.fallen ts equity].filter (fun p => 0 < p.drawdown) = [t.fallen ts equity] :=
      List.filter_cons_of_pos (decide_eq_true hdrop)
    rw [hfall.curve_eq, List.filter_append, ← hepisodic.flatten_eq, hkept, List.append_assoc]
  · rw [hfall.episodes_eq]
    exact hepisodic.holds
  · rw [hfall.episodes_eq, hfall.peak_time_eq]
    exact hepisodic.recovered
  · rw [hfall.episodes_eq]
    exact hepisodic.ordered
  · rw [hfall.in_episode] at hout
    cases hout
  · rw [hfall.active_eq]
    exact hholds
  · rw [hfall.active_eq, hfall.peak_time_eq, hfall.peak_eq, hfall.last_ts_eq]
    refine ⟨htime, hpeakeq, ?_, ?_⟩
    · obtain ⟨-, hlow, hdepth, -⟩ | ⟨hin, hsame, -⟩ := hcases
      · rw [hdepth, hlow]
      · rw [hsame]
        exact (hepisodic.in_progress hin).2.2
    · obtain ⟨htrough, -⟩ | ⟨hin, hsame, -⟩ := hcases
      · exact htrough.le
      · rw [hsame]
        exact (hepisodic.active_eq hin).2.2.2.trans (hnext hlast)
  · rw [hfall.have_peak_eq, hpeak] at hidle
    cases hidle
  · rw [hfall.last_ts_eq, hfall.peak_time_eq]
    exact ⟨hset, hsince⟩
  · rw [hall, hfall.max_eq]
    exact hshallower
  · rw [hall, hfall.max_eq]
    exact hreached

/-- One observation in order. -/
theorem DrawdownTracker.Episodic.observe (hepisodic : t.Episodic closed run) (hset : is_set ts = true)
    (hnext : is_set t.last_ts = true → t.last_ts ≤ ts) (hequity : 0 ≤ equity) :
    ∃ closed' run', (t.observe ts equity).Episodic closed' run' := by
  by_cases hrises : t.Rises equity
  · rw [observe_rise ts hrises]
    exact hepisodic.rise hset hnext
  · have hbelow : equity < t.peak := not_le.mp fun hle => hrises (.inr hle)
    have hpeak : t.have_peak = true := by
      by_contra hnone
      exact hrises (.inl (by simpa using hnone))
    rw [observe_fall ts hrises]
    exact ⟨_, _, hepisodic.fall hset hnext hpeak (hequity.trans_lt hbelow) hbelow⟩

end Steps

/-! ### Whole curves -/

/-- Every point is dated, none before the one before it. -/
structure Chronological (curve : List EquityPoint) : Prop where
  dated : ∀ p ∈ curve, is_set p.ts = true
  ordered : curve.Pairwise fun p q => p.ts ≤ q.ts

/-- What holds of the episodes of a tracker. The points below a peak are those of the
episodes in turn; the closed ones follow each other in time and overlap in none; the
worst fall is the deepest of all. -/
structure DrawdownTracker.Structured (t : DrawdownTracker) : Prop where
  runs : ∃ runs : List (List UnderwaterPoint), runs.flatten = t.curve.filter (fun p => 0 < p.drawdown) ∧
    List.Forall₂ DrawdownEpisode.Holds t.all_episodes runs
  chronological : ∀ d ∈ t.episodes, is_set d.recovery_time = true ∧ d.peak_time ≤ d.trough_time ∧
    d.trough_time ≤ d.recovery_time
  disjoint : t.episodes.Pairwise fun d d' => d.recovery_time ≤ d'.peak_time ∧
    ∀ ts, d.peak_time ≤ ts → ts < d.recovery_time → d'.peak_time ≤ ts → ¬ ts < d'.recovery_time
  shallower : ∀ d ∈ t.all_episodes, d.depth ≤ t.max_
  deepest : (t.all_episodes = [] ∧ t.max_ = 0) ∨ ∃ d ∈ t.all_episodes, d.depth = t.max_

theorem forall₂_exists {A B : Type*} {R : A → B → Prop} {l : List A} {l' : List B} (hall : List.Forall₂ R l l') {a : A}
    (ha : a ∈ l) : ∃ b ∈ l', R a b := by
  induction hall with
  | nil => exact absurd ha List.not_mem_nil
  | cons hab _ ih =>
    obtain rfl | ha := List.mem_cons.mp ha
    · exact ⟨_, List.mem_cons_self, hab⟩
    · obtain ⟨b, hb, hr⟩ := ih ha
      exact ⟨b, List.mem_cons_of_mem _ hb, hr⟩

theorem DrawdownEpisode.Holds.peak_le_trough {d : DrawdownEpisode} {run : List UnderwaterPoint}
    (hholds : d.Holds run) : d.peak_time ≤ d.trough_time := by
  obtain ⟨p, hp, htrough, -⟩ := hholds.attained
  exact htrough ▸ hholds.since p hp

theorem DrawdownTracker.Episodic.structured {t : DrawdownTracker} {closed : List (List UnderwaterPoint)}
    {run : List UnderwaterPoint} (hepisodic : t.Episodic closed run) : t.Structured := by
  have hruns : ∃ runs : List (List UnderwaterPoint), runs.flatten = t.curve.filter (fun p => 0 < p.drawdown) ∧
      List.Forall₂ DrawdownEpisode.Holds t.all_episodes runs := by
    obtain hin | hin := Bool.dichotomy t.in_episode
    · refine ⟨closed, ?_, ?_⟩
      · rw [← hepisodic.flatten_eq, hepisodic.outside hin, List.append_nil]
      · rw [all_episodes, hin]
        exact (List.append_nil t.episodes).symm ▸ hepisodic.holds
    · refine ⟨closed ++ [run], ?_, ?_⟩
      · rw [← hepisodic.flatten_eq, List.flatten_append, List.flatten_singleton]
      · rw [all_episodes, if_pos hin]
        exact List.rel_append hepisodic.holds (.cons (hepisodic.inside hin) .nil)
  have hdisjoint : ∀ d d' : DrawdownEpisode, d.recovery_time ≤ d'.peak_time →
      ∀ ts, d.peak_time ≤ ts → ts < d.recovery_time → d'.peak_time ≤ ts → ¬ ts < d'.recovery_time := by
    intro d d' hle ts _ hbefore hafter
    exact absurd (hbefore.trans_le (hle.trans hafter)) (lt_irrefl _)
  refine ⟨hruns, fun d hd => ?_, hepisodic.ordered.imp fun hle => ⟨hle, hdisjoint _ _ hle⟩, hepisodic.shallower, ?_⟩
  · obtain ⟨hset, htrough, -⟩ := hepisodic.recovered d hd
    obtain ⟨_, -, hholds⟩ := forall₂_exists hepisodic.holds hd
    exact ⟨hset, hholds.peak_le_trough, htrough⟩
  · obtain hzero | hsome := hepisodic.reached
    · left
      refine ⟨List.eq_nil_iff_forall_not_mem.mpr fun d hd => ?_, hzero⟩
      obtain ⟨runs, hflatten, hholds⟩ := hruns
      obtain ⟨run, hrun, hd'⟩ := forall₂_exists hholds hd
      obtain ⟨p, hp, -, -, hdepth⟩ := hd'.attained
      have hmem : p ∈ t.curve.filter fun p => 0 < p.drawdown := hflatten ▸ List.mem_flatten_of_mem hrun hp
      have hpos : 0 < p.drawdown := of_decide_eq_true (List.mem_filter.mp hmem).2
      have hle := hepisodic.shallower d hd
      rw [hzero, ← hdepth] at hle
      exact absurd hpos (not_lt.mpr hle)
    · exact .inr hsome

/-! ### The run -/

theorem DrawdownTracker.update_ok {t : DrawdownTracker} {p : EquityPoint} (hset : is_set p.ts = true)
    (hnext : is_set t.last_ts = true → t.last_ts ≤ p.ts) :
    t.update p.ts p.equity = (.ok true, t.observe p.ts p.equity) := by
  rw [update, if_neg (not_not.mpr hset), if_neg (by simp [is_finite]),
    if_neg fun h => absurd (hnext h.1) (not_le.mpr h.2)]

theorem DrawdownTracker.update_error {t : DrawdownTracker} {ts : Timestamp} {equity : Notional} {err : Error}
    (herror : (t.update ts equity).1 = .error err) : (t.update ts equity).2 = t := by
  unfold update at herror ⊢
  split
  · rfl
  · rename_i hset
    rw [if_neg hset] at herror
    split
    · rfl
    · rename_i hfinite
      rw [if_neg hfinite] at herror
      split
      · rfl
      · rename_i hordered
        rw [if_neg hordered] at herror
        cases herror

theorem DrawdownTracker.observe_recorded (t : DrawdownTracker) (ts : Timestamp) (equity : Notional) :
    (t.observe ts equity).last_ts = ts ∧ ∃ u : UnderwaterPoint, u.ts = ts ∧ u.equity = equity ∧
      (t.observe ts equity).curve = t.curve ++ [u] := by
  by_cases hrises : t.Rises equity
  · rw [observe_rise ts hrises]
    exact ⟨rfl, _, rfl, rfl, rfl⟩
  · rw [observe_fall ts hrises]
    exact ⟨rfl, _, rfl, rfl, rfl⟩

/-- The tracker after some more points. -/
structure Followed (t : DrawdownTracker) (d : Option Rat × Rat) (s : DrawdownScan) (w : Rat × Rat)
    (past : List EquityPoint) : Prop where
  agreed : Agreed t d s w
  episodic : ∃ closed run, t.Episodic closed run
  recorded : t.curve.map (fun u => (u.ts, u.equity)) = past.map fun p => (p.ts, p.equity)

theorem Followed.step {t : DrawdownTracker} {d : Option Rat × Rat} {s : DrawdownScan} {w : Rat × Rat}
    {past : List EquityPoint} (hfollowed : Followed t d s w past) {p : EquityPoint} (hset : is_set p.ts = true)
    (hnext : is_set t.last_ts = true → t.last_ts ≤ p.ts) (hequity : 0 ≤ p.equity) (curve : List EquityPoint) (i : Nat) :
    Followed (t.observe p.ts p.equity) (max_drawdown_step d p.equity) (s.step curve i p) (window_step w p)
      (past ++ [p]) := by
  obtain ⟨hagreed, ⟨closed, run, hepisodic⟩, hrecorded⟩ := hfollowed
  obtain ⟨-, u, hts, hequ, hcurve⟩ := t.observe_recorded p.ts p.equity
  refine ⟨hagreed.step hequity curve i, hepisodic.observe hset hnext hequity, ?_⟩
  rw [hcurve, List.map_append, hrecorded, List.map_append, List.map_singleton, List.map_singleton, hts, hequ]

/-- A run over the rest of a curve. -/
theorem Followed.run (curve : List EquityPoint) {rest : List EquityPoint} (hchronological : Chronological rest)
    (hequity : ∀ p ∈ rest, 0 ≤ p.equity) {t : DrawdownTracker} {d : Option Rat × Rat} {s : DrawdownScan} {w : Rat × Rat}
    {past : List EquityPoint} (hfollowed : Followed t d s w past)
    (hnext : is_set t.last_ts = true → ∀ p ∈ rest, t.last_ts ≤ p.ts) (n : Nat) :
    Followed (rest.foldl (fun t p => (t.update p.ts p.equity).2) t) ((rest.map EquityPoint.equity).foldl max_drawdown_step d)
      ((rest.zipIdx n).foldl (fun s p => s.step curve p.2 p.1) s) (rest.foldl window_step w) (past ++ rest) := by
  induction rest generalizing t d s w past n with
  | nil => rwa [List.append_nil]
  | cons p rest ih =>
    obtain ⟨hset, hsets⟩ := List.forall_mem_cons.mp hchronological.dated
    obtain ⟨hlater, hordered⟩ := List.pairwise_cons.mp hchronological.ordered
    obtain ⟨hpequity, hequities⟩ := List.forall_mem_cons.mp hequity
    have hpnext : is_set t.last_ts = true → t.last_ts ≤ p.ts := fun hlast => hnext hlast p List.mem_cons_self
    have hstep := hfollowed.step hset hpnext hpequity curve n
    rw [List.foldl_cons, update_ok hset hpnext, List.map_cons, List.foldl_cons, List.zipIdx_cons,
      List.foldl_cons, List.foldl_cons, List.append_cons]
    refine ih ⟨hsets, hordered⟩ hequities hstep (fun _ => ?_) (n + 1)
    rw [(t.observe_recorded p.ts p.equity).1]
    exact hlater

/-- The window of the last element is the whole curve. -/
theorem rolling_max_drawdown_last {curve : List EquityPoint} {window : Nat} (hwindow : max 2 curve.length ≤ window) :
    ∃ out, rolling_max_drawdown curve window = .ok out ∧ out.length = curve.length ∧
      ∀ last ∈ out.getLast?, last = (curve.foldl window_step (-1, 0)).2 := by
  obtain ⟨htwo, hlong⟩ := max_le_iff.mp hwindow
  rw [rolling_max_drawdown, if_neg (not_lt.mpr htwo)]
  refine ⟨_, rfl, by rw [List.length_map, List.length_range], fun last hlast => ?_⟩
  rw [List.getLast?_map, List.getLast?_range] at hlast
  split at hlast
  · cases hlast
  · rename_i hsome
    rw [Option.map_some, Option.mem_some_iff] at hlast
    have hfirst : (if window ≤ curve.length - 1 + 1 then curve.length - 1 + 1 - window else 0) = 0 := by
      split
      · omega
      · rfl
    have hwhole : curve.length - 1 + 1 - 0 = curve.length := by omega
    rw [← hlast, hfirst]
    dsimp only
    rw [List.drop_zero, hwhole, List.take_length]

section Agreement

variable (math : MathFunctions Rat) (pow : Rat → Rat → Rat)

theorem MetricsEngine.compute_drawdown (e : MetricsEngine) (curve : List EquityPoint) (trades : List Trade) :
    (e.compute math pow curve trades).max_drawdown = MetricsEngine.max_drawdown (curve.map EquityPoint.equity) ∧
      (e.compute math pow curve trades).max_drawdown_trough = (drawdown_scan curve).trough := by
  have htrades : ∀ m : PerformanceMetrics, (trade_metrics trades m).max_drawdown = m.max_drawdown ∧
      (trade_metrics trades m).max_drawdown_trough = m.max_drawdown_trough := by
    intro m
    unfold trade_metrics
    dsimp only
    split
    · exact ⟨rfl, rfl⟩
    · exact ⟨rfl, rfl⟩
  cases curve with
  | nil => exact ⟨rfl, rfl⟩
  | cons front curve =>
    obtain ⟨back, hback⟩ : ∃ back, (front :: curve).getLast? = some back :=
      ⟨_, List.getLast?_eq_some_getLast (List.cons_ne_nil front curve)⟩
    rw [compute, hback]
    exact ⟨(htrades _).1, (htrades _).2⟩

/-- On a dated curve of equities that are not negative the tracker, the scans of the
metrics and the trailing window over the whole find one maximum drawdown, a fraction,
at one trough; the tracker's episodes are structured; and what it refuses leaves it as
it was. -/
theorem drawdown_agreement (e : MetricsEngine) (trades : List Trade) {curve : List EquityPoint}
    (hchronological : Chronological curve) (hequity : ∀ p ∈ curve, 0 ≤ p.equity) {window : Nat}
    (hwindow : max 2 curve.length ≤ window) :
    (track curve).curve.map (fun u => (u.ts, u.equity)) = curve.map (fun p => (p.ts, p.equity)) ∧
      (track curve).max_ = MetricsEngine.max_drawdown (curve.map EquityPoint.equity) ∧
      (track curve).max_ = (e.compute math pow curve trades).max_drawdown ∧
      (∃ out, rolling_max_drawdown curve window = .ok out ∧ out.length = curve.length ∧
        ∀ last ∈ out.getLast?, last = (track curve).max_) ∧
      0 ≤ (track curve).max_ ∧ (track curve).max_ ≤ 1 ∧
      (track curve).max_trough_time = (e.compute math pow curve trades).max_drawdown_trough ∧
      (track curve).Structured ∧
      ∀ (t : DrawdownTracker) (ts : Timestamp) (equity : Notional) (err : Error),
        (t.update ts equity).1 = .error err → (t.update ts equity).2 = t := by
  have hstart : Followed {} (none, 0) {} (-1, 0) [] := ⟨Agreed.start, ⟨[], [], .start⟩, rfl⟩
  obtain ⟨hagreed, ⟨closed, run, hepisodic⟩, hrecorded⟩ :=
    hstart.run curve hchronological hequity (fun hset => absurd hset (by decide)) 0
  obtain ⟨hscan, hmetrics, hrolling⟩ := hagreed.worst_eq
  obtain ⟨hmax, htrough⟩ := e.compute_drawdown math pow curve trades
  obtain ⟨out, hout, hlength, hlast⟩ := rolling_max_drawdown_last hwindow
  refine ⟨hrecorded, hscan.symm, hmax ▸ hscan.symm, ⟨out, hout, hlength, fun last h => ?_⟩, hagreed.fraction.1,
    hagreed.fraction.2, htrough ▸ hagreed.trough_eq.symm, hepisodic.structured,
    fun t ts equity err => update_error⟩
  rw [hlast last h]
  exact hrolling

end Agreement

/-- A fall and its recovery, then another fall. -/
def twoFalls : List EquityPoint :=
  [{ ts := 1, equity := 10 }, { ts := 2, equity := 5 }, { ts := 3, equity := 10 }, { ts := 4, equity := 9 }]

/-- The first fall halves the equity, and is all the drawdown there is. -/
theorem drawdown_agreement_two_falls : (track twoFalls).max_ = 1 / 2 ∧ (track twoFalls).Structured := by
  have hchronological : Chronological twoFalls := ⟨by decide +kernel, by decide +kernel⟩
  have hagreement := drawdown_agreement { log := id, sqrt := id, sin := id, cos := id, pi := 3 } (fun x _ => x) {} []
    hchronological (by decide +kernel) (by decide +kernel : max 2 twoFalls.length ≤ 4)
  refine ⟨?_, hagreement.2.2.2.2.2.2.2.1⟩
  rw [hagreement.2.1]
  decide +kernel

end ptl.analytics
