import TradingLab.Features.Unsigned
import TradingLab.Labels.Label
import TradingLab.Moments

open ptl.features Series

namespace ptl.labels

variable {K : Type*} [Field K] [LinearOrder K] (math : MathFunctions K)

/-! ### What a build gives -/

def clip (bounds : Option (K × K)) (l : Label K) : Label K :=
  match bounds with
  | some (lo, hi) => if l.valid then { l with value := clamp l.value lo hi } else l
  | none => l

/-- The bounds a build clips to. -/
def LabelBuilder.bounds (b : LabelBuilder K) (prices : List (PricePoint K)) : Option (K × K) :=
  if b.cfg.winsorize && b.cfg.kind.continuous && decide (0 < b.cfg.winsor_sigma) then
    winsor_bounds math b.cfg.winsor_sigma
      (valid_values ((List.range prices.length).map (b.label_at math prices)))
  else none

/-- A label with the weight of a build. -/
def LabelBuilder.weighed (b : LabelBuilder K) (l : Label K) : Label K :=
  if l.valid then { l with weight := 1 / (b.cfg.horizon : K) } else l

@[simp] theorem clip_valid (bounds : Option (K × K)) (l : Label K) : (clip bounds l).valid = l.valid := by
  unfold clip
  split
  · split <;> rfl
  · rfl

omit [LinearOrder K] in
@[simp] theorem LabelBuilder.weighed_valid (b : LabelBuilder K) (l : Label K) :
    (b.weighed l).valid = l.valid := by
  unfold weighed
  split <;> rfl

omit [LinearOrder K] in
@[simp] theorem LabelBuilder.weighed_value (b : LabelBuilder K) (l : Label K) :
    (b.weighed l).value = l.value := by
  unfold weighed
  split <;> rfl

/-- The times of the series go strictly forward. -/
def Chronological (prices : List (PricePoint K)) : Prop :=
  ∀ e ∈ prices.zip prices.tail, e.1.ts < e.2.ts

theorem LabelBuilder.build_eq_ok_iff (b : LabelBuilder K) {prices : List (PricePoint K)}
    {set : LabelSet K} : b.build math prices = .ok set ↔ b.cfg.horizon ≠ 0 ∧ Chronological prices ∧
      set = ⟨b.weigh (b.winsorise math ((List.range prices.length).map (b.label_at math prices))), b.cfg⟩ := by
  unfold build
  by_cases hhorizon : b.cfg.horizon = 0
  · simp [hhorizon]
  · rw [if_neg hhorizon]
    split
    · rename_i before p hfound
      constructor
      · intro hfail
        cases hfail
      · rintro ⟨_, hordered, _⟩
        have hlate := hordered _ (List.mem_of_find?_eq_some hfound)
        have hearly : decide (p.ts ≤ before.ts) = true := (List.find?_some hfound :)
        exact absurd (of_decide_eq_true hearly) (not_le.mpr hlate)
    · rename_i hnone
      have hordered : Chronological prices := fun e hmem => not_le.mp (by
        simpa using List.find?_eq_none.mp hnone e hmem)
      constructor
      · intro hok
        exact ⟨hhorizon, hordered, (Except.ok.inj hok).symm⟩
      · rintro ⟨_, _, rfl⟩
        rfl

/-- Every row of a build is its own label, clipped and weighed. -/
theorem LabelBuilder.build_row (b : LabelBuilder K) {prices : List (PricePoint K)} {set : LabelSet K}
    (hbuild : b.build math prices = .ok set) {i : Nat} (hin : i < prices.length) :
    set.labels[i]? = some (b.weighed (clip (b.bounds math prices) (b.label_at math prices i))) := by
  obtain ⟨_, _, rfl⟩ := (b.build_eq_ok_iff math).mp hbuild
  have hclipped : b.winsorise math ((List.range prices.length).map (b.label_at math prices)) =
      (List.range prices.length).map fun i => clip (b.bounds math prices) (b.label_at math prices i) := by
    unfold winsorise bounds
    split
    · cases winsor_bounds math b.cfg.winsor_sigma
        (valid_values ((List.range prices.length).map (b.label_at math prices))) with
      | none => simp [clip]
      | some pair => simp [clip, List.map_map, Function.comp_def]
    · simp [clip]
  rw [hclipped]
  simp [weigh, weighed, hin]

theorem LabelBuilder.build_length (b : LabelBuilder K) {prices : List (PricePoint K)} {set : LabelSet K}
    (hbuild : b.build math prices = .ok set) : set.labels.length = prices.length := by
  obtain ⟨_, _, rfl⟩ := (b.build_eq_ok_iff math).mp hbuild
  unfold weigh winsorise
  split
  · split <;> simp
  · simp

/-! ### A configuration that clips -/

/-- Further prices leave every row that was valid as it is. -/
def LabelBuilder.LooksNoFurther (b : LabelBuilder K) : Prop :=
  ∀ (prices more : List (PricePoint K)) (set longer : LabelSet K),
    b.build math prices = .ok set → b.build math (prices ++ more) = .ok longer →
      ∀ (i : Nat) (l : Label K), set.labels[i]? = some l → l.valid = true → longer.labels[i]? = some l

/-- Values of this configuration are clipped: winsorising is on and the kind is
continuous, with a normaliser where it needs one. -/
structure LabelConfig.Clips (cfg : LabelConfig K) : Prop where
  horizon : cfg.horizon ≠ 0
  on : cfg.winsorize = true
  continuous : cfg.kind.continuous = true
  sigma : 0 < cfg.winsor_sigma
  normalised : cfg.kind = .VolNormalisedReturn → cfg.vol_window ≠ 0

/-- Without a window every row of a volatility-normalised label is invalid. -/
theorem LabelBuilder.label_at_no_window (b : LabelBuilder K) (hkind : b.cfg.kind = .VolNormalisedReturn)
    (hwindow : b.cfg.vol_window = 0) (prices : List (PricePoint K)) (i : Nat) :
    (b.label_at math prices i).valid = false := by
  have hvol : trailing_vol math prices i b.cfg.vol_window = 0 := by
    rw [trailing_vol, if_pos (Or.inr hwindow)]
  unfold label_at
  simp only [hkind, hvol, le_refl, if_true]
  split
  · rfl
  · split <;> rfl

theorem LabelBuilder.bounds_none (b : LabelBuilder K) (hhorizon : b.cfg.horizon ≠ 0)
    (hclips : ¬ b.cfg.Clips) (prices : List (PricePoint K)) : b.bounds math prices = none := by
  unfold bounds
  split
  · rename_i hactive
    rw [Bool.and_eq_true, Bool.and_eq_true, decide_eq_true_eq] at hactive
    obtain ⟨⟨hon, hcontinuous⟩, hsigma⟩ := hactive
    have hwindow : b.cfg.kind = .VolNormalisedReturn ∧ b.cfg.vol_window = 0 := by
      by_contra hnot
      exact hclips ⟨hhorizon, hon, hcontinuous, hsigma, fun hkind hzero => hnot ⟨hkind, hzero⟩⟩
    have hempty : valid_values ((List.range prices.length).map (b.label_at math prices)) = [] := by
      rw [valid_values, List.filterMap_eq_nil_iff]
      intro l hmem
      obtain ⟨i, _, rfl⟩ := List.mem_map.mp hmem
      rw [b.label_at_no_window math hwindow.1 hwindow.2]
      rfl
    rw [hempty]
    rfl
  · rfl

/-- A configuration that does not clip looks no further than its horizon. -/
theorem LabelBuilder.looksNoFurther_of_not_clips (b : LabelBuilder K) (hclips : ¬ b.cfg.Clips) :
    b.LooksNoFurther math := by
  intro prices more set longer hset hlonger i l hrow hvalid
  obtain ⟨hhorizon, _⟩ := (b.build_eq_ok_iff math).mp hset
  have hin : i < prices.length := by
    rw [← b.build_length math hset]
    exact (List.getElem?_eq_some_iff.mp hrow).1
  rw [b.build_row math hset hin, b.bounds_none math hhorizon hclips] at hrow
  obtain rfl := Option.some.inj hrow
  rw [b.weighed_valid, clip_valid] at hvalid
  have hwithin := b.lt_of_valid math hvalid
  rw [b.build_row math hlonger (by rw [List.length_append]; omega), b.bounds_none math hhorizon hclips,
    b.label_at_append math more hwithin]

/-! ### Prices that turn once

A price falls by one factor a bar for `h + 1` bars and rises by it from then on, so
the first rows look down and all rows from the turn on look up by the same. -/

section Turn

variable (base : ℝ) (h : Nat)

/-- Bars between `i` and the turn. -/
def offTurn (i : Nat) : Nat := ((i : Int) - (h + 1)).natAbs

noncomputable def turnPoint (i : Nat) : PricePoint ℝ :=
  { ts := i, instrument := 0, mid := base ^ offTurn h i }

noncomputable def turning (n : Nat) : List (PricePoint ℝ) := (List.range n).map (turnPoint base h)

/-- Factors gained over the horizon from row `i`. -/
def gain (i : Nat) : ℝ := (offTurn h (i + h) : ℝ) - offTurn h i

variable {base h}

@[simp] theorem length_turning (n : Nat) : (turning base h n).length = n := by simp [turning]

theorem turning_add (n m : Nat) : turning base h (n + m) =
    turning base h n ++ (List.range m).map fun j => turnPoint base h (n + j) := by
  simp [turning, List.range_add]

theorem point_turning {n i : Nat} (hin : i < n) : point (turning base h n) i = turnPoint base h i := by
  rw [point, List.getD_eq_getElem?_getD]
  simp [turning, hin]

theorem chronological_turning (n : Nat) : Chronological (turning base h n) := by
  rintro ⟨p, q⟩ hmem
  obtain ⟨k, hk, hpair⟩ := List.mem_iff_getElem.mp hmem
  simp only [List.length_zip, List.length_tail, length_turning] at hk
  simp only [List.getElem_zip, List.getElem_tail, turning, List.getElem_map, List.getElem_range,
    Prod.mk.injEq] at hpair
  obtain ⟨rfl, rfl⟩ := hpair
  change (k : Int) < ((k + 1 : Nat) : Int)
  omega

theorem gain_one : gain h 1 = -h := by
  have hlast : offTurn h (1 + h) = 0 := by unfold offTurn; omega
  have hfirst : offTurn h 1 = h := by unfold offTurn; omega
  rw [gain, hlast, hfirst]
  simp

theorem gain_zero (hpos : 0 < h) : gain h 0 = -h := by
  have hlast : offTurn h (0 + h) = 1 := by unfold offTurn; omega
  have hfirst : offTurn h 0 = h + 1 := by unfold offTurn; omega
  rw [gain, hlast, hfirst, Nat.cast_add, Nat.cast_one]
  ring

theorem gain_of_turn {i : Nat} (hturn : h + 1 ≤ i) : gain h i = h := by
  have hlast : offTurn h (i + h) = (i - (h + 1)) + h := by unfold offTurn; omega
  have hfirst : offTurn h i = i - (h + 1) := by unfold offTurn; omega
  rw [gain, hlast, hfirst, Nat.cast_add]
  ring

variable (hbase : 1 < base)

include hbase

theorem mid_pos (i : Nat) : 0 < (turnPoint base h i).mid := pow_pos (zero_lt_one.trans hbase) _

theorem log_ratio (i j : Nat) : Real.log ((turnPoint base h j).mid / (turnPoint base h i).mid) =
    ((offTurn h j : ℝ) - offTurn h i) * Real.log base := by
  rw [Real.log_div (mid_pos hbase j).ne' (mid_pos hbase i).ne']
  simp only [turnPoint, Real.log_pow]
  ring

/-- Every return in the window has the same size. -/
theorem window_returns_turning {n i window : Nat} (hi : 0 < i) (hin : i < n) (hwindow : window ≠ 0) :
    window_returns realMath (turning base h n) i window ≠ [] ∧
      ∀ r ∈ window_returns realMath (turning base h n) i window, r * r = Real.log base * Real.log base := by
  have hsome : ∀ j, 0 < j → j ≤ i →
      (if (point (turning base h n) (j - 1)).mid ≤ 0 ∨ (point (turning base h n) j).mid ≤ 0 then none
        else some (realMath.log
          ((point (turning base h n) j).mid / (point (turning base h n) (j - 1)).mid))) =
      some (((offTurn h j : ℝ) - offTurn h (j - 1)) * Real.log base) := by
    intro j hj hji
    rw [point_turning (by omega), point_turning (by omega), if_neg
      (not_or.mpr ⟨not_le.mpr (mid_pos hbase _), not_le.mpr (mid_pos hbase _)⟩)]
    exact congrArg some (log_ratio hbase (j - 1) j)
  constructor
  · intro hnil
    rw [window_returns, List.filterMap_eq_nil_iff] at hnil
    have hlast := hnil i (by rw [List.mem_range'_1]; split <;> omega)
    simp only [hsome i hi le_rfl] at hlast
    cases hlast
  · intro r hmem
    obtain ⟨j, hrange, hr⟩ := List.mem_filterMap.mp hmem
    have hj : 0 < j ∧ j ≤ i := by
      rw [List.mem_range'_1] at hrange
      split at hrange <;> omega
    simp only [hsome j hj.1 hj.2, Option.some.injEq] at hr
    have hstep : ((offTurn h j : ℝ) - offTurn h (j - 1)) * ((offTurn h j : ℝ) - offTurn h (j - 1)) = 1 := by
      have hcases : offTurn h j = offTurn h (j - 1) + 1 ∨ offTurn h (j - 1) = offTurn h j + 1 := by
        unfold offTurn
        omega
      rcases hcases with hup | hdown
      · rw [hup]
        push_cast
        ring
      · rw [hdown]
        push_cast
        ring
    rw [← hr]
    calc _ = ((offTurn h j : ℝ) - offTurn h (j - 1)) * ((offTurn h j : ℝ) - offTurn h (j - 1)) *
          (Real.log base * Real.log base) := by ring
      _ = _ := by rw [hstep, one_mul]

theorem trailing_vol_turning {n i window : Nat} (hi : 0 < i) (hin : i < n) (hwindow : window ≠ 0) :
    trailing_vol realMath (turning base h n) i window = Real.log base := by
  obtain ⟨hne, hsquare⟩ := window_returns_turning (h := h) hbase hi hin hwindow
  have hsum : ∀ (returns : List ℝ) (start : ℝ), (∀ r ∈ returns, r * r = Real.log base * Real.log base) →
      returns.foldl (fun sumsq r => sumsq + r * r) start =
        start + returns.length * (Real.log base * Real.log base) := by
    intro returns
    induction returns with
    | nil => intro start _; simp
    | cons r returns ih =>
      intro start hall
      rw [List.foldl_cons, ih _ fun q hq => hall q (List.mem_cons_of_mem r hq),
        hall r List.mem_cons_self, List.length_cons, Nat.cast_add, Nat.cast_one]
      ring
  have hlength : ((window_returns realMath (turning base h n) i window).length : ℝ) ≠ 0 :=
    Nat.cast_ne_zero.mpr (List.length_pos_iff.mpr hne).ne'
  unfold trailing_vol
  rw [if_neg (by omega), if_neg (fun hzero => hne (List.eq_nil_of_length_eq_zero hzero)),
    hsum _ 0 hsquare, zero_add, mul_div_cancel_left₀ _ hlength]
  exact Real.sqrt_mul_self (Real.log_pos hbase).le

omit hbase in
/-- The value of a row whose price gains `s` factors of logarithm `L`. -/
noncomputable def LabelConfig.valueOf (cfg : LabelConfig ℝ) (L s : ℝ) : ℝ :=
  match cfg.kind with
  | .ForwardLogReturn => s * L
  | .VolNormalisedReturn => s
  | _ =>
    let net := |s * L| - cfg.round_trip_cost_bps * (1 / (10000 : Nat))
    if net ≤ 0 then 0 else copysign net (s * L)

theorem label_at_turning {b : LabelBuilder ℝ} (hclips : b.cfg.Clips) {n i : Nat}
    (hin : i + b.cfg.horizon < n) (hh : h = b.cfg.horizon) :
    ((b.label_at realMath (turning base h n) i).valid = true →
      (b.label_at realMath (turning base h n) i).value = b.cfg.valueOf (Real.log base) (gain h i)) ∧
    (0 < i → (b.label_at realMath (turning base h n) i).valid = true) := by
  have hshort : ¬ i + b.cfg.horizon ≥ (turning base h n).length := by
    rw [length_turning]
    omega
  have hprices : ¬ (¬ 0 < (turnPoint base h i).mid ∨ ¬ 0 < (turnPoint base h (i + b.cfg.horizon)).mid) := by
    rw [not_or, not_not, not_not]
    exact ⟨mid_pos hbase _, mid_pos hbase _⟩
  have hraw : realMath.log ((turnPoint base h (i + b.cfg.horizon)).mid / (turnPoint base h i).mid) =
      gain h i * Real.log base := by
    rw [gain, hh]
    exact log_ratio hbase _ _
  have hlog := Real.log_pos hbase
  unfold LabelBuilder.label_at LabelConfig.valueOf
  have hhere : point (turning base h n) i = turnPoint base h i := point_turning (by omega)
  have hthere : point (turning base h n) (i + b.cfg.horizon) = turnPoint base h (i + b.cfg.horizon) :=
    point_turning hin
  simp only [hhere, hthere]
  rw [if_neg hshort, if_neg hprices, hraw]
  cases hkind : b.cfg.kind with
  | ForwardLogReturn => exact ⟨fun _ => rfl, fun _ => rfl⟩
  | VolNormalisedReturn =>
    have hwindow := hclips.normalised hkind
    rcases Nat.eq_zero_or_pos i with rfl | hi
    · have hzero : trailing_vol realMath (turning base h n) 0 b.cfg.vol_window = 0 := by
        rw [trailing_vol, if_pos (Or.inl rfl)]
      simp [hzero]
    · have hvol := trailing_vol_turning (h := h) hbase hi (by omega : i < n) hwindow
      simp only [hvol, if_neg (not_le.mpr hlog)]
      exact ⟨fun _ => mul_div_cancel_right₀ _ hlog.ne', fun _ => trivial⟩
  | CostAwareReturn => exact ⟨fun _ => rfl, fun _ => rfl⟩
  | Direction =>
    have hkinds := hclips.continuous
    rw [hkind] at hkinds
    cases hkinds
  | TripleBarrier =>
    have hkinds := hclips.continuous
    rw [hkind] at hkinds
    cases hkinds

end Turn

/-! ### Clipping moves a row -/

section Moved

/-- Values that are all the same are not clipped. -/
theorem winsor_bounds_same (sigma : ℝ) {values : List ℝ} {v : ℝ} (hsame : ∀ x ∈ values, x = v) :
    winsor_bounds realMath sigma values = none := by
  obtain ⟨n, rfl⟩ : ∃ n, values = List.replicate n v := ⟨_, List.eq_replicate_of_mem hsame⟩
  unfold winsor_bounds
  split
  · rfl
  · rename_i hlong
    rw [List.length_replicate] at hlong
    have hn : (n : ℝ) ≠ 0 := Nat.cast_ne_zero.mpr (by omega)
    have hmean : (List.replicate n v).foldl (· + ·) 0 / ((List.replicate n v).length : ℝ) = v := by
      rw [← List.sum_eq_foldl, List.sum_replicate, List.length_replicate, nsmul_eq_mul,
        mul_div_cancel_left₀ _ hn]
    have hm2 : ∀ k : Nat, (List.replicate k v).foldl (fun m2 x => m2 + (x - v) * (x - v)) 0 = 0 := by
      intro k
      induction k with
      | zero => rfl
      | succ k ih => simpa [List.replicate_succ] using ih
    simp only [hmean, hm2]
    rw [if_neg]
    simp [realMath]

/-- A value that the bounds leave is between them. -/
theorem clamp_eq_self {v lo hi : ℝ} (hstays : clamp v lo hi = v) : lo ≤ v ∧ v ≤ hi := by
  unfold clamp at hstays
  split at hstays
  · exact absurd hstays (ne_of_gt ‹v < lo›)
  · split at hstays
    · exact absurd hstays (ne_of_lt ‹hi < v›)
    · exact ⟨not_lt.mp ‹¬ v < lo›, not_lt.mp ‹¬ hi < v›⟩

theorem foldl_deviations (mean : ℝ) (values : List ℝ) (start : ℝ) :
    values.foldl (fun m2 v => m2 + (v - mean) * (v - mean)) start =
      start + (values.map fun v => (v - mean) * (v - mean)).sum := by
  induction values generalizing start with
  | nil => simp
  | cons v values ih =>
    rw [List.foldl_cons, ih, List.map_cons, List.sum_cons]
    ring

/-- A value further from the mean than the bounds is moved. -/
theorem winsor_bounds_outlier {sigma : ℝ} (hsigma : 0 ≤ sigma) {values : List ℝ} {v : ℝ}
    (htwo : 2 ≤ values.length)
    (hfar : sigma * Real.sqrt (comoment id id values / (values.length - 1)) < |v - mean values|)
    (hmem : v ∈ values) :
    ∃ lo hi, winsor_bounds realMath sigma values = some (lo, hi) ∧ clamp v lo hi ≠ v := by
  have hmean : values.foldl (· + ·) 0 / (values.length : ℝ) = mean values := by
    rw [← List.sum_eq_foldl, mean]
  have hm2 : values.foldl (fun m2 v => m2 + (v - mean values) * (v - mean values)) 0 =
      comoment id id values := by
    rw [foldl_deviations, zero_add]
    simp [comoment]
  have hcount : ((values.length - 1 : Nat) : ℝ) = values.length - 1 := by
    rw [Nat.cast_sub (by omega), Nat.cast_one]
  have hsd : 0 < Real.sqrt (comoment id id values / (values.length - 1)) := by
    rw [Real.sqrt_pos]
    refine div_pos ?_ (by rw [← hcount]; exact Nat.cast_pos.mpr (by omega))
    -- the deviation of `v` itself is in the sum
    have hdeviation : 0 < (v - mean values) * (v - mean values) := by
      refine mul_self_pos.mpr fun hzero => ?_
      rw [hzero, abs_zero] at hfar
      exact absurd hfar (not_lt.mpr (mul_nonneg hsigma (Real.sqrt_nonneg _)))
    refine lt_of_lt_of_le hdeviation (List.single_le_sum ?_ _ ?_)
    · intro d hd
      obtain ⟨x, _, rfl⟩ := List.mem_map.mp hd
      exact mul_self_nonneg _
    · exact List.mem_map.mpr ⟨v, hmem, by simp⟩
  generalize hroot : Real.sqrt (comoment id id values / (values.length - 1)) = sd at hfar hsd
  have hbounds : winsor_bounds realMath sigma values =
      some (mean values - sigma * sd, mean values + sigma * sd) := by
    unfold winsor_bounds
    rw [if_neg (by omega)]
    simp only [hmean, hm2, hcount, realMath, hroot]
    exact if_pos hsd
  refine ⟨_, _, hbounds, fun hstays => ?_⟩
  obtain ⟨hlow, hhigh⟩ := clamp_eq_self hstays
  exact absurd hfar (not_lt.mpr (abs_le.mpr ⟨by linarith, by linarith⟩))

variable {b : LabelBuilder ℝ} (hclips : b.cfg.Clips)

include hclips

/-- A factor large enough to pay the cost of the round trip. -/
theorem valueOf_ne {L : ℝ} (hL : |b.cfg.round_trip_cost_bps| + 1 ≤ L) :
    b.cfg.valueOf L (-b.cfg.horizon) ≠ b.cfg.valueOf L b.cfg.horizon := by
  have hLpos : 0 < L := by linarith [abs_nonneg b.cfg.round_trip_cost_bps]
  have hone : (1 : ℝ) ≤ b.cfg.horizon := Nat.one_le_cast.mpr (Nat.one_le_iff_ne_zero.mpr hclips.horizon)
  have hup : 0 < (b.cfg.horizon : ℝ) * L := mul_pos (by linarith) hLpos
  have hdown : -(b.cfg.horizon : ℝ) * L < 0 := by linarith
  have hsize : |-(b.cfg.horizon : ℝ) * L| = b.cfg.horizon * L := by
    rw [abs_of_neg hdown]
    ring
  unfold LabelConfig.valueOf
  cases hkind : b.cfg.kind with
  | ForwardLogReturn =>
    simp only
    linarith
  | VolNormalisedReturn =>
    simp only
    linarith
  | CostAwareReturn =>
    have hpays : 0 < (b.cfg.horizon : ℝ) * L - b.cfg.round_trip_cost_bps * (1 / (10000 : Nat)) := by
      rw [Nat.cast_ofNat]
      have hcost := le_abs_self b.cfg.round_trip_cost_bps
      have hsmall := abs_nonneg b.cfg.round_trip_cost_bps
      nlinarith
    simp only [hsize, abs_of_pos hup, if_neg (not_le.mpr hpays), copysign, if_pos hdown,
      if_neg (not_lt.mpr hup.le), abs_of_pos hpays]
    linarith
  | Direction =>
    have hkinds := hclips.continuous
    rw [hkind] at hkinds
    cases hkinds
  | TripleBarrier =>
    have hkinds := hclips.continuous
    rw [hkind] at hkinds
    cases hkinds

variable {base : ℝ} (hbase : 1 < base)

include hbase

/-- Before the turn is passed all valid values are the same, so none is clipped. -/
theorem bounds_before_turn : b.bounds realMath (turning base b.cfg.horizon (b.cfg.horizon + 2)) = none := by
  unfold LabelBuilder.bounds
  split
  · refine winsor_bounds_same (v := b.cfg.valueOf (Real.log base) (-b.cfg.horizon)) _ fun x hmem => ?_
    obtain ⟨l, hl, hx⟩ := List.mem_filterMap.mp hmem
    obtain ⟨i, _, rfl⟩ := List.mem_map.mp hl
    split at hx
    · rename_i hvalid
      have hin := b.lt_of_valid realMath hvalid
      rw [length_turning] at hin
      have hvalue := (label_at_turning hbase hclips hin rfl).1 hvalid
      rw [← Option.some.inj hx, hvalue]
      have hrow : i = 0 ∨ i = 1 := by omega
      rcases hrow with rfl | rfl
      · rw [gain_zero (Nat.pos_of_ne_zero hclips.horizon)]
      · rw [gain_one]
    · cases hx
  · rfl

/-- The valid values past the turn: those of the first rows, and then the same
value over and over. -/
theorem values_past_turn : ∃ few : List ℝ, b.cfg.valueOf (Real.log base) (-b.cfg.horizon) ∈ few ∧
    ∀ far, valid_values ((List.range (2 * b.cfg.horizon + 2 + far)).map
        (b.label_at realMath (turning base b.cfg.horizon (2 * b.cfg.horizon + 2 + far)))) =
      few ++ List.replicate (far + 1) (b.cfg.valueOf (Real.log base) b.cfg.horizon) := by
  obtain ⟨h, hh⟩ : ∃ h, h = b.cfg.horizon := ⟨_, rfl⟩
  have hpos : 0 < h := hh ▸ Nat.pos_of_ne_zero hclips.horizon
  rw [← hh]
  refine ⟨valid_values ((List.range (h + 1)).map (b.label_at realMath (turning base h (2 * h + 2)))),
    ?_, fun far => ?_⟩
  · have hin : 1 + b.cfg.horizon < 2 * h + 2 := by omega
    obtain ⟨hvalue, hvalid⟩ := label_at_turning hbase hclips hin hh
    refine List.mem_filterMap.mpr ⟨_, List.mem_map.mpr ⟨1, by simp [hpos], rfl⟩, ?_⟩
    rw [if_pos (hvalid one_pos), hvalue (hvalid one_pos), gain_one]
  · have hrange : 2 * h + 2 + far = (h + 1) + (far + 1) + h := by omega
    have hrows : List.range (2 * h + 2 + far) = List.range (h + 1) ++
        (List.range (far + 1)).map (h + 1 + ·) ++ (List.range h).map (h + 1 + (far + 1) + ·) := by
      rw [hrange, List.range_add, List.range_add]
    -- the first rows do not see how far the series goes on
    have hfirst : (List.range (h + 1)).map (b.label_at realMath (turning base h (2 * h + 2 + far))) =
        (List.range (h + 1)).map (b.label_at realMath (turning base h (2 * h + 2))) := by
      refine List.map_congr_left fun i hmem => ?_
      rw [List.mem_range] at hmem
      rw [turning_add]
      exact b.label_at_append realMath _ (by rw [length_turning]; omega)
    have hpast : valid_values (((List.range (far + 1)).map (h + 1 + ·)).map
        (b.label_at realMath (turning base h (2 * h + 2 + far)))) =
        List.replicate (far + 1) (b.cfg.valueOf (Real.log base) h) := by
      have hrow : ∀ k ∈ List.range (far + 1),
          (if (b.label_at realMath (turning base h (2 * h + 2 + far)) (h + 1 + k)).valid then
            some (b.label_at realMath (turning base h (2 * h + 2 + far)) (h + 1 + k)).value else none) =
          some (b.cfg.valueOf (Real.log base) h) := by
        intro k hmem
        rw [List.mem_range] at hmem
        have hin : h + 1 + k + b.cfg.horizon < 2 * h + 2 + far := by omega
        obtain ⟨hvalue, hvalid⟩ := label_at_turning hbase hclips hin hh
        rw [if_pos (hvalid (by omega)), hvalue (hvalid (by omega)), gain_of_turn (by omega)]
      rw [valid_values, List.filterMap_map, List.filterMap_map]
      refine (List.filterMap_congr hrow).trans ?_
      simp
    have hlast : valid_values (((List.range h).map (h + 1 + (far + 1) + ·)).map
        (b.label_at realMath (turning base h (2 * h + 2 + far)))) = [] := by
      rw [valid_values, List.filterMap_eq_nil_iff]
      intro l hmem
      obtain ⟨i, hi, rfl⟩ := List.mem_map.mp hmem
      obtain ⟨k, _, rfl⟩ := List.mem_map.mp hi
      rw [if_neg fun hvalid => ?_]
      have hin := b.lt_of_valid realMath hvalid
      rw [length_turning] at hin
      omega
    rw [hrows, List.map_append, List.map_append, hfirst]
    unfold valid_values at hpast hlast ⊢
    rw [List.filterMap_append, List.filterMap_append, hpast, hlast, List.append_nil]

omit hbase in
/-- Far enough past some turn the bounds move the value the rows had before it. -/
theorem exists_bounds_past_turn : ∃ (base : ℝ) (far : Nat), 1 < base ∧ ∃ lo hi,
    b.bounds realMath (turning base b.cfg.horizon (2 * b.cfg.horizon + 2 + far)) = some (lo, hi) ∧
      clamp (b.cfg.valueOf (Real.log base) (-b.cfg.horizon)) lo hi ≠
        b.cfg.valueOf (Real.log base) (-b.cfg.horizon) := by
  obtain ⟨L, hL⟩ : ∃ L, L = |b.cfg.round_trip_cost_bps| + 1 := ⟨_, rfl⟩
  have hbase : 1 < Real.exp L := Real.one_lt_exp_iff.mpr (by
    rw [hL]
    linarith [abs_nonneg b.cfg.round_trip_cost_bps])
  have hne := valueOf_ne hclips hL.ge
  obtain ⟨few, hfew, hvalues⟩ := values_past_turn hclips hbase
  rw [Real.log_exp] at hfew hvalues
  obtain ⟨far, hfar⟩ := exists_outlier few _ hclips.sigma.le hne
  have hsome := List.length_pos_of_mem hfew
  obtain ⟨lo, hi, hbounds, hmoved⟩ := winsor_bounds_outlier hclips.sigma.le (by simp; omega)
    (hfar (far + 1) (Nat.le_succ far)) (List.mem_append_left _ hfew)
  refine ⟨Real.exp L, far, hbase, lo, hi, ?_, by rwa [Real.log_exp]⟩
  rw [LabelBuilder.bounds, hclips.on, hclips.continuous, decide_eq_true hclips.sigma, length_turning,
    hvalues far, ← hbounds]
  rfl

end Moved

/-- A builder looks no further than its horizon exactly when its configuration
does not clip. -/
theorem LabelBuilder.looksNoFurther_iff (b : LabelBuilder ℝ) :
    b.LooksNoFurther realMath ↔ ¬ b.cfg.Clips := by
  refine ⟨fun hblind hclips => ?_, b.looksNoFurther_of_not_clips realMath⟩
  obtain ⟨base, far, hbase, lo, hi, hclipped, hmoved⟩ := exists_bounds_past_turn hclips
  -- the series up to the turn, and the same with enough prices behind it
  obtain ⟨short, hshort⟩ : ∃ short, short = turning base b.cfg.horizon (b.cfg.horizon + 2) := ⟨_, rfl⟩
  obtain ⟨more, hmore⟩ : ∃ more, turning base b.cfg.horizon (2 * b.cfg.horizon + 2 + far) = short ++ more := by
    rw [hshort, show 2 * b.cfg.horizon + 2 + far = b.cfg.horizon + 2 + (b.cfg.horizon + far) by omega,
      turning_add]
    exact ⟨_, rfl⟩
  have hlength : short.length = b.cfg.horizon + 2 := by rw [hshort, length_turning]
  obtain ⟨set, hset⟩ : ∃ set, b.build realMath short = .ok set :=
    ⟨_, (b.build_eq_ok_iff realMath).mpr ⟨hclips.horizon, hshort ▸ chronological_turning _, rfl⟩⟩
  obtain ⟨longer, hlonger⟩ : ∃ set, b.build realMath (short ++ more) = .ok set :=
    ⟨_, (b.build_eq_ok_iff realMath).mpr ⟨hclips.horizon, hmore ▸ chronological_turning _, rfl⟩⟩
  have hin : 1 + b.cfg.horizon < b.cfg.horizon + 2 := by omega
  have hone : 1 < short.length := by omega
  obtain ⟨hvalue, hvalid⟩ := label_at_turning hbase hclips hin rfl
  rw [← hshort] at hvalue hvalid
  have hlabel := hvalue (hvalid one_pos)
  rw [gain_one] at hlabel
  -- the row keeps its value in the short build
  have hrow := b.build_row realMath hset hone
  rw [hshort, bounds_before_turn hclips hbase, ← hshort] at hrow
  -- and is clipped in the long one
  have hrow' := b.build_row realMath hlonger
    (by rw [List.length_append]; omega : 1 < (short ++ more).length)
  rw [b.label_at_append realMath more (by omega), ← hmore, hclipped] at hrow'
  have hsame := hblind short more set longer hset hlonger 1 _ hrow (by simpa [clip] using hvalid one_pos)
  rw [hrow'] at hsame
  have hvalues := congrArg Label.value (Option.some.inj hsame)
  rw [b.weighed_value, b.weighed_value] at hvalues
  simp only [clip, hvalid one_pos, if_true] at hvalues
  rw [hlabel] at hvalues
  exact hmoved hvalues

/-- A price that doubles once and then stays. -/
noncomputable def steady (n : Nat) : List (PricePoint ℝ) :=
  (List.range n).map fun i : Nat => { ts := i, instrument := 0, mid := (if i = 0 then 1 else 2 : Nat) }

theorem chronological_steady (n : Nat) : Chronological (steady n) := by
  rintro ⟨p, q⟩ hmem
  obtain ⟨k, hk, hpair⟩ := List.mem_iff_getElem.mp hmem
  simp only [steady, List.getElem_zip, List.getElem_tail, List.getElem_map, List.getElem_range,
    Prod.mk.injEq] at hpair
  obtain ⟨rfl, rfl⟩ := hpair
  change (k : Int) < ((k + 1 : Nat) : Int)
  omega

/-- Three more prices clip the label of the first row. -/
theorem build_clips_earlier :
    ¬ LabelBuilder.LooksNoFurther realMath ⟨{ horizon := 1, winsor_sigma := 1 }⟩ := by
  intro hblind
  obtain ⟨b, hb⟩ : ∃ b : LabelBuilder ℝ, b = ⟨{ horizon := 1, winsor_sigma := 1 }⟩ := ⟨_, rfl⟩
  rw [← hb] at hblind
  have hlog : 0 < Real.log 2 := Real.log_pos one_lt_two
  have hmore : steady 5 = steady 2 ++ (List.range 3).map fun i : Nat =>
      ({ ts := ((2 + i : Nat) : Int), instrument := 0, mid := (if 2 + i = 0 then 1 else 2 : Nat) } : PricePoint ℝ) := by
    rw [steady, show 5 = 2 + 3 by rfl, List.range_add, List.map_append, List.map_map]
    rfl
  have hbuild : ∀ n, b.build realMath (steady n) =
      .ok ⟨b.weigh (b.winsorise realMath ((List.range (steady n).length).map
        (b.label_at realMath (steady n)))), b.cfg⟩ := fun n =>
    (b.build_eq_ok_iff realMath).mpr ⟨by rw [hb]; exact one_ne_zero, chronological_steady n, rfl⟩
  have hspread : Real.sqrt (((Real.log 2 - Real.log 2 / 4) * (Real.log 2 - Real.log 2 / 4) +
      Real.log 2 / 4 * (Real.log 2 / 4) + Real.log 2 / 4 * (Real.log 2 / 4) +
        Real.log 2 / 4 * (Real.log 2 / 4)) / 3) = Real.log 2 / 2 := by
    rw [← Real.sqrt_mul_self (by linarith : 0 ≤ Real.log 2 / 2)]
    congr 1
    ring
  have hlate : winsor_bounds realMath 1 [Real.log 2, 0, 0, 0] =
      some (Real.log 2 / 4 - Real.log 2 / 2, Real.log 2 / 4 + Real.log 2 / 2) := by
    simp [winsor_bounds, realMath, hspread, hlog]
  have hbounds : b.bounds realMath (steady 2) = none := by
    simp [hb, LabelBuilder.bounds, LabelKind.continuous, List.range_succ, valid_values,
      LabelBuilder.label_at, steady, point, realMath, winsor_bounds]
  have hbounds' : b.bounds realMath (steady 5) =
      some (Real.log 2 / 4 - Real.log 2 / 2, Real.log 2 / 4 + Real.log 2 / 2) := by
    have hvalues : valid_values ((List.range 5).map (b.label_at realMath (steady 5))) =
        [Real.log 2, 0, 0, 0] := by
      simp [hb, List.range_succ, valid_values, LabelBuilder.label_at, steady, point, realMath]
    have hcount : (steady 5).length = 5 := by simp [steady]
    rw [LabelBuilder.bounds, hcount, hvalues, hb]
    simpa [LabelKind.continuous] using hlate
  have hlabel : (b.label_at realMath (steady 2) 0).valid = true ∧
      (b.label_at realMath (steady 2) 0).value = Real.log 2 := by
    simp [hb, LabelBuilder.label_at, steady, point, realMath]
  have hrow := b.build_row realMath (hbuild 2) (by simp [steady] : 0 < (steady 2).length)
  have hrow' := b.build_row realMath (hbuild 5) (by simp [steady] : 0 < (steady 5).length)
  rw [hbounds] at hrow
  rw [hbounds', hmore, b.label_at_append realMath _ (by simp [hb, steady])] at hrow'
  have hsame := hblind (steady 2) _ _ _ (hbuild 2) (hmore ▸ hbuild 5) 0 _ hrow (by simpa [clip] using hlabel.1)
  have hvalues := congrArg Label.value (Option.some.inj (hsame.symm.trans hrow'))
  rw [b.weighed_value, b.weighed_value] at hvalues
  simp only [clip, hlabel.1, if_true] at hvalues
  rw [hlabel.2] at hvalues
  have hstays := clamp_eq_self hvalues.symm
  linarith [hstays.2]

end ptl.labels
