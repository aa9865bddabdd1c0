import TradingLab.Features.Streams

open Series

namespace ptl.features

open MinuteOfDayVolumeProfile

/-! ### Days of one-minute bars -/

def one_minute : Duration := 60000000000

/-- A session of whole minutes, with a bar for each of them. -/
structure TradingDay where
  session : market.Session
  bars : List market.Bar
  is_open : session.is_open = true
  whole : session.close = session.open_ + bars.length * one_minute
  opens : ∀ i (h : i < bars.length), (bars[i]).open_time = session.open_ + i * one_minute
  closes : ∀ i (h : i < bars.length), (bars[i]).close_time = session.open_ + (i + 1) * one_minute

namespace TradingDay

/-- The bars with their session. -/
def entries (day : TradingDay) : List (market.Bar × market.Session) := day.bars.map fun bar => (bar, day.session)

variable {K : Type*} [Field K]

/-- A bar fed with its session. -/
def feed (entry : market.Bar × market.Session) : FeatureCall K := .on_bar entry.1 (some entry.2)

/-- The volumes of the bars at a place of their days, the newest day first. -/
def volumes_at (i : Nat) (before : List TradingDay) : List K :=
  before.reverse.filterMap fun day => day.bars[i]?.map fun bar => ((bar.volume : Rat) : K)

/-- Some whole days and the first bars of one more. -/
def history (before : List TradingDay) (day : TradingDay) (n : Nat) : List (market.Bar × market.Session) :=
  before.flatMap entries ++ day.entries.take n

/-- The bar that closes a minute of the session falls in the next one. -/
theorem minute_of_bar (day : TradingDay) {i : Nat} (hi : i < day.bars.length) :
    minute_of_session (day.bars[i]).close_time day.session = i + 1 := by
  have htime := day.closes i hi
  have hnonneg : (0 : Int) ≤ ((i : Int) + 1) * 60000000000 := by omega
  have hafter : ¬ (¬ day.session.is_open ∨ (day.bars[i]).close_time < day.session.open_) := by
    rintro (hclosed | hbefore)
    · exact hclosed day.is_open
    · rw [htime] at hbefore
      exact absurd hbefore (not_lt.mpr (le_add_of_nonneg_right hnonneg))
  have helapsed : (day.bars[i]).close_time - day.session.open_ = ((i : Int) + 1) * 60000000000 := by
    rw [htime]
    exact add_sub_cancel_left _ _
  rw [minute_of_session, if_neg hafter, helapsed]
  exact Int.mul_ediv_cancel _ (by decide)

end TradingDay

/-! ### One slot of the profile -/

section Slots

variable {K : Type*} [Field K] [LinearOrder K] {minute : Int}

theorem MinuteOfDayVolumeProfile.slot_update_of_ne {p : MinuteOfDayVolumeProfile K} {other : Int} (volume : K)
    (hminute : 0 ≤ minute) (hne : other ≠ minute) : (p.update other volume).slot minute = p.slot minute := by
  rw [update]
  split
  · rfl
  · rename_i hguard
    have hother : 0 ≤ other := not_lt.mp (not_or.mp hguard).1
    have hplace : other.toNat ≠ minute.toNat := by omega
    rw [slot, slot, if_neg (not_lt.mpr hminute),
      if_neg (not_lt.mpr hminute)]
    exact List.getElem?_modify_ne _ _ hplace

/-- The volumes of a minute. -/
def volumes_of (minute : Int) (entries : List (market.Bar × market.Session)) : List K :=
  entries.filterMap fun e =>
    if minute_of_session e.1.close_time e.2 = minute then some ((e.1.volume : Rat) : K) else none

variable [IsStrictOrderedRing K]

/-- A slot is fed with the volumes of its minute. -/
theorem MinuteOfDayVolumeProfile.slot_fed (hminute : 0 ≤ minute) (entries : List (market.Bar × market.Session))
    (p : MinuteOfDayVolumeProfile K) :
    (fed (fun p (m : market.Bar × market.Session) =>
        p.update (minute_of_session m.1.close_time m.2) ((m.1.volume : Rat) : K)) p entries).slot minute =
      (p.slot minute).map fun m => fed RollingMean.update m (volumes_of minute entries) := by
  induction entries with
  | nil => simp [volumes_of]
  | cons e entries ih =>
    rw [fed_cons]
    by_cases hsame : minute_of_session e.1.close_time e.2 = minute
    · have hvolumes : (volumes_of minute (e :: entries) : List K) =
          ((e.1.volume : Rat) : K) :: volumes_of minute entries := List.filterMap_cons_some (if_pos hsame)
      have hvolume : (0 : K) ≤ ((e.1.volume : Rat) : K) := Rat.cast_nonneg.mpr e.1.volume_nonneg
      rw [hsame, slot_update hminute hvolume, ih, Option.map_map, hvolumes]
      rfl
    · have hvolumes : (volumes_of minute (e :: entries) : List K) = volumes_of minute entries :=
        List.filterMap_cons_none (if_neg hsame)
      rw [slot_update_of_ne _ hminute hsame, ih, hvolumes]

end Slots

/-! ### The volumes at a place of the day -/

section Volumes

/-- Of entries numbered in order, one number picks one. -/
theorem filterMap_numbered {A B : Type*} (key : A → Int) (g : A → B) {base : Int} {l : List A}
    (hkey : ∀ k (hk : k < l.length), key l[k] = base + k) (i : Nat) :
    (l.filterMap fun x => if key x = base + i then some (g x) else none) = (l[i]?.map g).toList := by
  induction l generalizing base i with
  | nil => rfl
  | cons x l ih =>
    have hfirst : key x = base := by simpa using hkey 0 (Nat.succ_pos _)
    have hrest : ∀ k (hk : k < l.length), key l[k] = base + 1 + k := by
      intro k hk
      have hnext := hkey (k + 1) (Nat.succ_lt_succ hk)
      rw [List.getElem_cons_succ, Nat.cast_add, Nat.cast_one] at hnext
      omega
    cases i with
    | zero =>
      have hnone : (l.filterMap fun x => if key x = base + (0 : Nat) then some (g x) else none) = [] := by
        refine List.filterMap_eq_nil_iff.mpr fun y hy => if_neg fun hsame => ?_
        obtain ⟨k, hk, rfl⟩ := List.getElem_of_mem hy
        have hlater := hrest k hk
        omega
      rw [List.filterMap_cons, hnone]
      simp [hfirst]
    | succ i =>
      have hskip : ¬ key x = base + (i + 1 : Nat) := by omega
      have hsame : base + ((i + 1 : Nat) : Int) = base + 1 + i := by omega
      rw [List.filterMap_cons]
      simp only [if_neg hskip]
      rw [hsame]
      exact ih hrest i

variable {K : Type*} [Field K] [LinearOrder K]

omit [LinearOrder K] in
theorem TradingDay.volumes_of_take (day : TradingDay) (n i : Nat) :
    (volumes_of ((i : Int) + 1) (day.entries.take n) : List K) =
      (((day.bars.take n)[i]?).map fun bar => ((bar.volume : Rat) : K)).toList := by
  have hentries : day.entries.take n = (day.bars.take n).map fun bar => (bar, day.session) := List.map_take.symm
  have hkey : ∀ k (hk : k < (day.bars.take n).length),
      minute_of_session ((day.bars.take n)[k]).close_time day.session = 1 + k := by
    intro k hk
    have hbar : k < day.bars.length := (List.length_take ▸ hk).trans_le (min_le_right _ _)
    rw [List.getElem_take, day.minute_of_bar hbar, add_comm]
  have hpick := filterMap_numbered (fun bar : market.Bar => minute_of_session bar.close_time day.session)
    (fun bar => ((bar.volume : Rat) : K)) hkey i
  rw [hentries, volumes_of, List.filterMap_map, add_comm]
  exact hpick

omit [LinearOrder K] in
/-- At a place of the day, a history has its bar's volume and those of the days
before. -/
theorem TradingDay.volumes_of_history (before : List TradingDay) (day : TradingDay) (i : Fin day.bars.length) :
    (volumes_of ((i : Int) + 1) (history before day (i + 1)).reverse : List K) =
      ((day.bars[i].volume : Rat) : K) :: volumes_at i before := by
  have hreverse : ∀ entries, (volumes_of ((i : Int) + 1) entries.reverse : List K) =
      (volumes_of ((i : Int) + 1) entries).reverse := fun entries => List.filterMap_reverse
  have hday : (volumes_of ((i : Int) + 1) (day.entries.take (i + 1)) : List K) = [((day.bars[i].volume : Rat) : K)] := by
    rw [day.volumes_of_take, List.getElem?_take_of_lt (Nat.lt_succ_self _), List.getElem?_eq_getElem i.isLt]
    rfl
  have hbefore : (volumes_of ((i : Int) + 1) (before.flatMap entries) : List K) =
      before.filterMap fun d => d.bars[(i : Nat)]?.map fun bar => ((bar.volume : Rat) : K) := by
    rw [volumes_of, List.filterMap_flatMap, List.filterMap_eq_flatMap_toList]
    refine List.flatMap_congr fun d _ => ?_
    have hwhole := d.volumes_of_take (K := K) d.entries.length i
    have hall : d.bars.take d.entries.length = d.bars := List.take_of_length_le (by rw [entries, List.length_map])
    rw [List.take_length, hall] at hwhole
    exact hwhole
  have happend : (volumes_of ((i : Int) + 1) (history before day (i + 1)) : List K) =
      volumes_of ((i : Int) + 1) (before.flatMap entries) ++ volumes_of ((i : Int) + 1) (day.entries.take (i + 1)) :=
    List.filterMap_append
  rw [hreverse, happend, hbefore, hday, List.reverse_append, List.reverse_singleton, volumes_at,
    List.filterMap_reverse]
  rfl

end Volumes

/-! ### What a bar shows -/

section Shown

variable {K : Type*} [Field K] [LinearOrder K] [IsStrictOrderedRing K]

/-- The bars of open sessions are those of the minutes. -/
theorem minutes_in_feed {entries : List (market.Bar × market.Session)} (hopen : ∀ e ∈ entries, e.2.is_open = true) :
    minutes_in (entries.map (TradingDay.feed (K := K))) = entries := by
  induction entries with
  | nil => rfl
  | cons e entries ih =>
    have hpos : 0 < ((e.1.close : Rat) : K) := Rat.cast_pos.mpr (e.1.low_pos.trans_le e.1.close_in_range.1)
    have hsession : opened (some e.2) = some e.2 := Option.filter_some_pos (hopen e List.mem_cons_self)
    rw [List.map_cons, TradingDay.feed, minutes_in_cons _ _ _ hpos, hsession,
      ih fun m hm => hopen m (List.mem_cons_of_mem _ hm)]
    rfl

theorem TradingDay.history_open (before : List TradingDay) (day : TradingDay) (n : Nat) :
    ∀ e ∈ history before day n, e.2.is_open = true := by
  have hentries : ∀ (d : TradingDay), ∀ e ∈ d.entries, e.2.is_open = true := by
    intro d e he
    obtain ⟨bar, -, rfl⟩ := List.mem_map.mp he
    exact d.is_open
  intro e he
  obtain hbefore | hday := List.mem_append.mp he
  · obtain ⟨d, -, hd⟩ := List.mem_flatMap.mp hbefore
    exact hentries d e hd
  · exact hentries day e (List.mem_of_mem_take hday)

/-- The newest of a history is the bar that it ends with. -/
theorem TradingDay.history_head (before : List TradingDay) (day : TradingDay) (i : Fin day.bars.length) :
    (history before day (i + 1)).reverse.head? = some (day.bars[i], day.session) := by
  have hentry : day.entries[(i : Nat)]? = some (day.bars[i], day.session) := by
    rw [entries, List.getElem?_map, List.getElem?_eq_getElem i.isLt]
    rfl
  rw [history, List.take_add_one, hentry, List.reverse_append, List.reverse_append]
  rfl

/-- The mean of the latest volumes that a minute's slot is fed. -/
theorem baseline_of_minute (cfg : FeatureConfig K) (past : List (FeatureCall K)) (lookback minute : Nat) :
    (volume_baseline cfg past lookback).baseline minute =
      if minute < max 1 cfg.volume_profile_slots then
        mean ((volumes_of minute (minutes_in past)).take (max 1 lookback))
      else 0 := by
  have hminute := Int.natCast_nonneg minute
  have hslot := slot_fed hminute (minutes_in past)
    (MinuteOfDayVolumeProfile.new cfg.volume_profile_slots lookback : MinuteOfDayVolumeProfile K)
  have hnew : (MinuteOfDayVolumeProfile.new cfg.volume_profile_slots lookback : MinuteOfDayVolumeProfile K).slot minute =
      if minute < max 1 cfg.volume_profile_slots then some (RollingMean.new (max 1 lookback)) else none := by
    rw [slot, if_neg (not_lt.mpr hminute), Int.toNat_natCast]
    exact List.getElem?_replicate
  rw [baseline, volume_baseline, hslot, hnew]
  split
  · have hvalue := RollingMean.value_stream (max 1 lookback) (volumes_of minute (minutes_in past) : List K).reverse
    rw [List.foldl_reverse, recent, List.reverse_reverse, max_eq_right (le_max_left 1 lookback)] at hvalue
    exact hvalue
  · rfl

/-- The value that is emitted after a bar, from its volume and those at its place
of the days before. -/
def emitted_volume_of (cfg : FeatureConfig K) (i : Nat) (volume : K) (older : List K) : K :=
  let base := if i + 1 < max 1 cfg.volume_profile_slots then
    mean ((volume :: older).take (max 1 cfg.volume_profile_lookback)) else 0
  if base ≤ 0 then 1 else volume / base

theorem TradingDay.emitted_volume_eq (math : MathFunctions K) (cfg : FeatureConfig K) (instrument : InstrumentId)
    (before : List TradingDay) (day : TradingDay) (i : Fin day.bars.length) {x : K}
    (hvalue : ((FeatureSet.new math cfg instrument).run math
      ((history before day (i + 1)).map feed)).values[cfg.volume_index]? = some x) :
    x = emitted_volume_of cfg i ((day.bars[i].volume : Rat) : K) (volumes_at i before) := by
  have htracks := FeatureSet.tracks_run math cfg instrument ((history before day (i + 1)).map feed)
  obtain ⟨older, holder⟩ := List.head?_eq_some_iff.mp (history_head before day i)
  have hcalls : ((history before day (i + 1)).map (feed (K := K))) =
      older.reverse.map feed ++ [.on_bar day.bars[i] (some day.session)] := by
    rw [← List.reverse_reverse (history before day (i + 1)), holder, List.reverse_cons, List.map_append]
    rfl
  -- The last call shows the set that its bar was folded into.
  let t := ((FeatureSet.new math cfg instrument).run math (older.reverse.map feed)).fold_bar math day.bars[i]
    (some day.session)
  have hrun : (FeatureSet.new math cfg instrument).run math ((history before day (i + 1)).map feed) = t.refresh math := by
    rw [hcalls, FeatureSet.run, List.foldl_append, List.foldl_cons, List.foldl_nil, FeatureSet.step,
      FeatureSet.on_bar_eq]
    rfl
  rw [hrun] at hvalue htracks
  have hframe := t.refresh_frame math
  simp only [FeatureSet.frame, Prod.mk.injEq] at hframe
  have hkept : cfg.volume_index < t.values.length := by
    rw [← hframe.2.1]
    exact (List.getElem?_eq_some_iff.mp hvalue).1
  have hreturns : (t.refresh math).vol_index = cfg.vol_index := by
    rw [FeatureSet.vol_index, htracks.returns, htracks.reversals, htracks.ma_devs, List.length_map, List.length_map,
      List.length_map]
    rfl
  have hplace : t.vol_index + t.vols.length + 2 = cfg.volume_index := by
    have hvols := congrArg List.length htracks.vols
    rw [List.length_map] at hvols
    rw [← hframe.2.2.1, ← hframe.2.2.2, hreturns, hvols]
    rfl
  have hminutes : minutes_in (((history before day (i + 1)).map (feed (K := K))).reverse) =
      (history before day (i + 1)).reverse := by
    rw [← List.map_reverse]
    exact minutes_in_feed fun e he => history_open before day (i + 1) e (List.mem_reverse.mp he)
  have hminute : t.last_minute = ((i : Nat) + 1 : Nat) := by
    have hlast := htracks.last_minute
    rw [hminutes, history_head] at hlast
    exact hlast.trans (day.minute_of_bar i.isLt)
  have hvolume : t.last_volume = ((day.bars[i].volume : Rat) : K) := by
    have hlast := htracks.last_volume
    rw [hminutes, history_head] at hlast
    exact hlast
  have hemitted := t.emitted_volume math
  rw [hplace, hminute, hvolume, show t.volume_profile = _ from htracks.volume_profile] at hemitted
  have hshown := (FeatureSet.refresh_at math hkept hemitted).1
  rw [hvalue] at hshown
  rw [Option.some.inj hshown, relative_volume, baseline_of_minute, hminutes, emitted_volume_of]
  have hvolumes := TradingDay.volumes_of_history (K := K) before day i
  rw [Nat.cast_add, Nat.cast_one, hvolumes]

end Shown


/-! ### The law -/

section Law

variable {K : Type*} [Field K] [LinearOrder K] [IsStrictOrderedRing K] {volume : K} {older : List K} {lookback : Nat}

/-- A volume over the mean of the latest of the earlier ones, neutral where there
are none or they are all zero. -/
def relative_volume_law (lookback : Nat) (volume : K) (older : List K) : K :=
  if mean (older.take lookback) = 0 then 1 else volume / mean (older.take lookback)

/-- A window that a volume is folded into keeps its mean exactly when the volume is
the one it pushes out, or the mean itself while there is none. -/
theorem mean_take_cons_eq_iff (hpos : 0 < lookback) :
    mean ((volume :: older).take lookback) = mean (older.take lookback) ↔
      volume = older[lookback - 1]?.getD (mean (older.take lookback)) := by
  obtain ⟨n, rfl⟩ := Nat.exists_eq_add_of_le' hpos
  rw [List.take_succ_cons, Nat.add_sub_cancel]
  rcases Nat.lt_or_ge n older.length with hfull | hshort
  · have hlength : ((older.take n).length + 1 : K) ≠ 0 := Nat.cast_add_one_ne_zero _
    rw [List.take_add_one, List.getElem?_eq_getElem hfull, Option.toList_some, Option.getD_some, mean, mean,
      List.sum_append, List.sum_singleton, List.sum_cons, List.length_cons, List.length_append, List.length_singleton,
      Nat.cast_add, Nat.cast_one, div_left_inj' hlength, add_comm, add_right_inj]
  · rw [List.take_of_length_le hshort, List.take_of_length_le (Nat.le_succ_of_le hshort),
      List.getElem?_eq_none hshort, Option.getD_none, mean_cons_eq_iff]

/-- Whether a volume in its own baseline makes no difference. -/
def Unmoved (lookback : Nat) (volume : K) (older : List K) : Prop :=
  if mean (older.take lookback) = 0 then volume = 0 ∨ lookback = 1
  else volume = older[lookback - 1]?.getD (mean (older.take lookback)) ∨
    volume = 0 ∧ ∃ u ∈ older.take (lookback - 1), u ≠ 0

theorem mean_nonneg {xs : List K} (hnonneg : ∀ x ∈ xs, 0 ≤ x) : 0 ≤ mean xs :=
  div_nonneg (List.sum_nonneg hnonneg) (Nat.cast_nonneg _)

theorem mean_eq_zero_iff {xs : List K} (hnonneg : ∀ x ∈ xs, 0 ≤ x) : mean xs = 0 ↔ ∀ x ∈ xs, x = 0 := by
  rw [mean, div_eq_zero_iff]
  constructor
  · rintro (hsum | hlength) x hx
    · exact List.all_zero_of_le_zero_le_of_sum_eq_zero hnonneg hsum hx
    · rw [List.length_eq_zero_iff.mp (Nat.cast_eq_zero.mp hlength)] at hx
      exact absurd hx List.not_mem_nil
  · exact fun hzero => .inl (List.sum_eq_zero hzero)

theorem mean_take_cons_eq_zero_iff (hpos : 0 < lookback) (hvolume : 0 ≤ volume) (holder : ∀ u ∈ older, 0 ≤ u) :
    mean ((volume :: older).take lookback) = 0 ↔ volume = 0 ∧ ∀ u ∈ older.take (lookback - 1), u = 0 := by
  obtain ⟨n, rfl⟩ := Nat.exists_eq_add_of_le' hpos
  rw [List.take_succ_cons, Nat.add_sub_cancel, mean_eq_zero_iff, List.forall_mem_cons]
  rw [List.forall_mem_cons]
  exact ⟨hvolume, fun u hu => holder u (List.mem_of_mem_take hu)⟩

/-- After nothing but zeros, a volume above zero is its own mean in a window of one
only. -/
theorem div_mean_eq_one_iff (hpos : 0 < lookback) (hvolume : volume ≠ 0) (hsome : older ≠ [])
    (hzero : ∀ u ∈ older.take lookback, u = 0) :
    volume / mean ((volume :: older).take lookback) = 1 ↔ lookback = 1 := by
  obtain ⟨n, rfl⟩ := Nat.exists_eq_add_of_le' hpos
  have hrest : (older.take n).sum = 0 := List.sum_eq_zero fun u hu => hzero u (List.take_subset_take_left _ n.le_succ hu)
  have hlength : (((older.take n).length + 1 : Nat) : K) ≠ 0 := Nat.cast_ne_zero.mpr (Nat.succ_ne_zero _)
  rw [List.take_succ_cons, mean, List.sum_cons, hrest, add_zero, List.length_cons, div_div_cancel₀ hvolume,
    Nat.cast_eq_one, Nat.add_eq_right, Nat.add_eq_right, List.length_eq_zero_iff, List.take_eq_nil_iff]
  exact or_iff_left hsome

theorem ratio_eq_law_iff (hpos : 0 < lookback) (hvolume : 0 ≤ volume) (holder : ∀ u ∈ older, 0 ≤ u)
    (hsome : older ≠ []) :
    (if mean ((volume :: older).take lookback) ≤ 0 then 1 else volume / mean ((volume :: older).take lookback)) =
        relative_volume_law lookback volume older ↔ Unmoved lookback volume older := by
  have htaken : ∀ n, ∀ u ∈ older.take n, 0 ≤ u := fun n u hu => holder u (List.mem_of_mem_take hu)
  have hbase : 0 ≤ mean ((volume :: older).take lookback) :=
    mean_nonneg fun u hu => List.forall_mem_cons.mpr ⟨hvolume, holder⟩ u (List.mem_of_mem_take hu)
  have hnone := mean_take_cons_eq_zero_iff hpos hvolume holder
  have hmeans : mean ((volume :: older).take lookback) = mean (older.take lookback) ↔ _ := mean_take_cons_eq_iff hpos
  rw [relative_volume_law, Unmoved]
  by_cases hbefore : mean (older.take lookback) = 0
  · rw [if_pos hbefore, if_pos hbefore]
    have hzero := (mean_eq_zero_iff (htaken lookback)).mp hbefore
    rcases eq_or_ne volume 0 with hflat | hmoved
    · have hall : mean ((volume :: older).take lookback) = 0 :=
        hnone.mpr ⟨hflat, fun u hu => hzero u (List.take_subset_take_left _ (Nat.sub_le _ _) hu)⟩
      rw [if_pos hall.le]
      exact iff_of_true rfl (.inl hflat)
    · have hne : mean ((volume :: older).take lookback) ≠ 0 := fun hall => hmoved (hnone.mp hall).1
      rw [if_neg (not_le.mpr (lt_of_le_of_ne hbase hne.symm)), div_mean_eq_one_iff hpos hmoved hsome hzero,
        or_iff_right hmoved]
  · rw [if_neg hbefore, if_neg hbefore, ← hmeans]
    by_cases hall : mean ((volume :: older).take lookback) = 0
    · obtain ⟨hflat, hrest⟩ := hnone.mp hall
      rw [if_pos hall.le, hflat, zero_div]
      refine iff_of_false one_ne_zero ?_
      rintro (hsame | ⟨-, u, hu, hne⟩)
      · rw [← hflat, hall] at hsame
        exact hbefore hsame.symm
      · exact hne (hrest u hu)
    · have hkept : volume = 0 → ∃ u ∈ older.take (lookback - 1), u ≠ 0 := by
        intro hflat
        by_contra hzero
        exact hall (hnone.mpr ⟨hflat, fun u hu => by_contra fun hne => hzero ⟨u, hu, hne⟩⟩)
      rw [if_neg (not_le.mpr (lt_of_le_of_ne hbase (Ne.symm hall))), div_eq_div_iff hall hbefore, mul_eq_mul_left_iff]
      constructor
      · rintro (hsame | hflat)
        · exact .inl hsame.symm
        · exact .inr ⟨hflat, hkept hflat⟩
      · rintro (hsame | ⟨hflat, -⟩)
        · exact .inl hsame.symm
        · exact .inr hflat

/-- When the law holds of a bar: nothing is at its place within the lookback, or its
own volume in the baseline makes no difference, or its minute has no slot and it is
as large as the mean. -/
def FeatureConfig.FollowsLaw (cfg : FeatureConfig K) (i : Nat) (volume : K) (older : List K) : Prop :=
  older.take cfg.volume_profile_lookback = [] ∨
    if i + 1 < max 1 cfg.volume_profile_slots then Unmoved cfg.volume_profile_lookback volume older
    else mean (older.take cfg.volume_profile_lookback) = 0 ∨ volume = mean (older.take cfg.volume_profile_lookback)

theorem emitted_volume_of_eq_law_iff (cfg : FeatureConfig K) (i : Nat) (hvolume : 0 ≤ volume)
    (holder : ∀ u ∈ older, 0 ≤ u) :
    emitted_volume_of cfg i volume older = relative_volume_law cfg.volume_profile_lookback volume older ↔
      cfg.FollowsLaw i volume older := by
  rw [emitted_volume_of, FeatureConfig.FollowsLaw]
  by_cases hnone : older.take cfg.volume_profile_lookback = []
  · have hlaw : relative_volume_law cfg.volume_profile_lookback volume older = 1 := by
      rw [relative_volume_law, hnone, mean, List.sum_nil, zero_div, if_pos rfl]
    have halone : (volume :: older).take (max 1 cfg.volume_profile_lookback) = [volume] := by
      obtain hlookback | hempty := List.take_eq_nil_iff.mp hnone
      · rw [hlookback]
        rfl
      · rw [hempty]
        exact List.take_of_length_le (le_max_left _ _)
    rw [hlaw, halone, mean, List.sum_singleton, List.length_singleton, Nat.cast_one, div_one]
    refine iff_of_true ?_ (.inl hnone)
    by_cases hslot : i + 1 < max 1 cfg.volume_profile_slots
    · rw [if_pos hslot]
      split
      · rfl
      · rename_i hsome
        exact div_self (ne_of_gt (not_le.mp hsome))
    · rw [if_neg hslot]
      exact if_pos le_rfl
  · obtain ⟨hlookback, hsome⟩ := not_or.mp (mt List.take_eq_nil_iff.mpr hnone)
    have hpos := Nat.pos_of_ne_zero hlookback
    have hwindow : max 1 cfg.volume_profile_lookback = cfg.volume_profile_lookback := max_eq_right hpos
    rw [or_iff_right hnone, hwindow]
    by_cases hslot : i + 1 < max 1 cfg.volume_profile_slots
    · rw [if_pos hslot, if_pos hslot]
      exact ratio_eq_law_iff hpos hvolume holder hsome
    · rw [if_neg hslot, if_neg hslot, relative_volume_law]
      rw [if_pos le_rfl]
      split
      · rename_i hzero
        exact iff_of_true rfl (.inl hzero)
      · rename_i hmean
        rw [eq_comm, div_eq_one_iff_eq hmean, or_iff_right hmean]

theorem volumes_at_nonneg (i : Nat) (before : List TradingDay) :
    ∀ u ∈ (TradingDay.volumes_at i before : List K), 0 ≤ u := by
  intro u hu
  obtain ⟨day, -, hday⟩ := List.mem_filterMap.mp hu
  obtain ⟨bar, -, rfl⟩ := Option.map_eq_some_iff.mp hday
  exact Rat.cast_nonneg.mpr bar.volume_nonneg

/-- The value shown after a bar of a day, among days of one-minute bars. -/
def TradingDay.shown_volume (math : MathFunctions K) (cfg : FeatureConfig K) (instrument : InstrumentId)
    (before : List TradingDay) (day : TradingDay) (i : Fin day.bars.length) : Option K :=
  ((FeatureSet.new math cfg instrument).run math
    ((history before day (i + 1)).map feed)).values[cfg.volume_index]?

theorem TradingDay.shown_volume_eq (math : MathFunctions K) (cfg : FeatureConfig K) (instrument : InstrumentId)
    (before : List TradingDay) (day : TradingDay) (i : Fin day.bars.length) (hkept : cfg.volume_index < 64) :
    day.shown_volume math cfg instrument before i =
      some (emitted_volume_of cfg i ((day.bars[i].volume : Rat) : K) (volumes_at i before)) := by
  have htracks := FeatureSet.tracks_run math cfg instrument ((history before day (i + 1)).map feed)
  have hroom : cfg.volume_index < ((FeatureSet.new math cfg instrument).run math
      ((history before day (i + 1)).map feed)).values.length := by
    rw [htracks.length_values]
    exact lt_min cfg.volume_index_lt hkept
  have hvalue := List.getElem?_eq_getElem hroom
  rw [shown_volume, hvalue, emitted_volume_eq math cfg instrument before day i hvalue]

/-- The law of relative volume holds of a bar exactly when the volumes at its place
follow it. -/
theorem relative_volume_iff (math : MathFunctions K) (cfg : FeatureConfig K) (instrument : InstrumentId)
    (before : List TradingDay) (day : TradingDay) (i : Fin day.bars.length) (hkept : cfg.volume_index < 64) :
    day.shown_volume math cfg instrument before i =
        some (relative_volume_law cfg.volume_profile_lookback ((day.bars[i].volume : Rat) : K)
          (TradingDay.volumes_at i before)) ↔
      cfg.FollowsLaw i ((day.bars[i].volume : Rat) : K) (TradingDay.volumes_at i before) := by
  rw [TradingDay.shown_volume_eq math cfg instrument before day i hkept, Option.some_inj]
  exact emitted_volume_of_eq_law_iff cfg i (Rat.cast_nonneg.mpr day.bars[i].volume_nonneg) (volumes_at_nonneg i before)

theorem one_price_pos : (0 : Price) < 1 := by decide +kernel

theorem one_minute_pos : (0 : Timestamp) < one_minute := by decide +kernel

theorem one_minute_whole : one_minute = 0 + ((1 : Nat) : Int) * one_minute := by decide +kernel

def minuteBarOf (volume : Volume) (hvolume : 0 ≤ volume) : market.Bar :=
  { barAt one_minute 1 one_price_pos with
    open_time := 0, opens_first := one_minute_pos, volume := volume, volume_nonneg := hvolume }

theorem minuteBarOf_times (volume : Volume) (hvolume : 0 ≤ volume) :
    ∀ i (h : i < [minuteBarOf volume hvolume].length),
      ([minuteBarOf volume hvolume][i]).open_time = 0 + i * one_minute ∧
        ([minuteBarOf volume hvolume][i]).close_time = 0 + (i + 1) * one_minute := by
  intro i h
  obtain rfl := Nat.lt_one_iff.mp h
  exact ⟨rfl, rfl⟩

/-- A day of one minute. -/
def minuteDay (volume : Volume) (hvolume : 0 ≤ volume) : TradingDay where
  session := { open_ := 0, close := one_minute, kind := .Regular }
  bars := [minuteBarOf volume hvolume]
  is_open := rfl
  whole := one_minute_whole
  opens i h := (minuteBarOf_times volume hvolume i h).1
  closes i h := (minuteBarOf_times volume hvolume i h).2

/-- The first day has nothing to compare with. -/
theorem relative_volume_iff_first :
    (minuteDay 100 (by decide +kernel)).shown_volume realMath {} 0 [] ⟨0, Nat.one_pos⟩ =
        some (relative_volume_law 20 (((100 : Rat) : ℝ)) []) ↔
      ({} : FeatureConfig ℝ).FollowsLaw 0 (((100 : Rat) : ℝ)) [] :=
  relative_volume_iff realMath {} 0 [] (minuteDay 100 (by decide +kernel)) ⟨0, Nat.one_pos⟩ (by decide)

/-- A volume of three hundred after one of a hundred shows one and a half times, not
three. -/
theorem relative_volume_in_own_baseline :
    ¬ ∀ (cfg : FeatureConfig ℝ) (instrument : InstrumentId) (before : List TradingDay) (day : TradingDay)
        (i : Fin day.bars.length), cfg.volume_index < 64 →
        (∀ d ∈ day :: before, d.bars.length ≤ cfg.volume_profile_slots) →
        day.shown_volume realMath cfg instrument before i =
          some (relative_volume_law cfg.volume_profile_lookback ((day.bars[i].volume : Rat) : ℝ)
            (TradingDay.volumes_at i before)) := by
  intro hall
  have hdays : ∀ d ∈ [minuteDay 300 (by decide +kernel), minuteDay 100 (by decide +kernel)], d.bars.length ≤ 390 := by
    decide
  have hlaw := hall {} 0 [minuteDay 100 (by decide +kernel)] (minuteDay 300 (by decide +kernel)) ⟨0, Nat.one_pos⟩
    (by decide) hdays
  rw [TradingDay.shown_volume_eq _ _ _ _ _ _ (by decide), Option.some_inj] at hlaw
  have hshown : emitted_volume_of ({} : FeatureConfig ℝ) 0 ((300 : Rat) : ℝ) [((100 : Rat) : ℝ)] = 3 / 2 := by
    norm_num [emitted_volume_of, mean]
  have hratio : relative_volume_law 20 ((300 : Rat) : ℝ) [((100 : Rat) : ℝ)] = 3 := by
    norm_num [relative_volume_law, mean]
  have hequal : (3 : ℝ) / 2 = 3 := hshown.symm.trans (hlaw.trans hratio)
  norm_num at hequal

end Law

end ptl.features
