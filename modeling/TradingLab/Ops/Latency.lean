import Mathlib.Algebra.Order.Floor.Ring
import Mathlib.Data.Rat.Floor
import Mathlib.Tactic.FieldSimp
import Mathlib.Tactic.Linarith
import TradingLab.Core.Time
import TradingLab.Moments
import TradingLab.Ranking

namespace ptl.ops

/-! ### The histogram -/

def kBuckets : Nat := 12

/-- One entry of each of the two arrays. -/
structure Bucket where
  bound : Rat
  count : Nat := 0
  deriving DecidableEq

/-- Bucket bounds: above zero and strictly increasing. -/
structure BucketBounds where
  values : List Rat
  ne_nil : values ≠ []
  increasing : (0 :: values).IsChain (· < ·)

/-- The bounds of the constructor: two buckets a decade. -/
def decades : BucketBounds where
  values := (List.range kBuckets).map fun i => 3.1622776601683795 ^ i
  ne_nil := by decide
  increasing := by decide +kernel

structure LatencyHistogram where
  buckets : List Bucket
  count : Nat := 0
  sum_micros : Rat := 0
  max_micros : Rat := 0
  /-- `none` is the infinity it starts from. -/
  least_micros : Option Rat := none
  deriving DecidableEq

namespace LatencyHistogram

/-- An empty histogram over the given bucket bounds. -/
def over_bounds (bounds : BucketBounds) : LatencyHistogram where
  buckets := bounds.values.map fun bound => { bound := bound }

def new : LatencyHistogram := over_bounds decades

/-- The search for a latency's bucket: the first bound it does not pass, or else
the last bucket. -/
def tally (micros : Rat) : List Bucket → List Bucket
  | [] => []
  | [b] => [{ b with count := b.count + 1 }]
  | b :: b' :: bs =>
    if micros ≤ b.bound then { b with count := b.count + 1 } :: b' :: bs
    else b :: tally micros (b' :: bs)

def record_micros (h : LatencyHistogram) (micros : Rat) : LatencyHistogram :=
  if ¬ is_finite micros ∨ micros < 0 then h
  else
    { buckets := tally micros h.buckets
      count := h.count + 1
      sum_micros := h.sum_micros + micros
      max_micros := max h.max_micros micros
      least_micros := some (h.least_micros.elim micros fun least => min least micros) }

def record (h : LatencyHistogram) (d : Duration) : LatencyHistogram := h.record_micros ((d : Rat) / 1000)

def mean_micros (h : LatencyHistogram) : Rat := if h.count = 0 then 0 else h.sum_micros / h.count

def min_micros (h : LatencyHistogram) : Rat := if h.count = 0 then 0 else h.least_micros.getD 0

/-- The walk of `quantile_micros` over the buckets, from the bound below them and
the count before them. -/
def quantile_from (max_micros target lower : Rat) (before : Nat) : List Bucket → Rat
  | [] => max_micros
  | b :: bs =>
    let cumulative := before + b.count
    if target ≤ cumulative then
      if b.count = 0 then b.bound
      else lower + (b.bound - lower) * max 0 (min ((target - before) / b.count) 1)
    else quantile_from max_micros target b.bound cumulative bs

def quantile_micros (h : LatencyHistogram) (q : Rat) : Rat :=
  if h.count = 0 ∨ ¬ is_finite q then 0
  else quantile_from h.max_micros (max 0 (min q 1) * h.count) 0 0 h.buckets

def reset (h : LatencyHistogram) : LatencyHistogram where
  buckets := h.buckets.map fun b => { bound := b.bound }

/-- A histogram after a sequence of latencies. -/
def recorded (h : LatencyHistogram) (latencies : List Rat) : LatencyHistogram := latencies.foldl record_micros h

/-! ### The buckets of a set of latencies -/

/-- The buckets once the latencies are in them. -/
def fill : List Rat → List Rat → List Bucket
  | [], _ => []
  | [bound], kept => [{ bound := bound, count := kept.length }]
  | bound :: bound' :: bounds, kept =>
    { bound := bound, count := kept.countP (· ≤ bound) } :: fill (bound' :: bounds) (kept.filter (bound < ·))

theorem tally_fill (bounds : List Rat) (kept : List Rat) (micros : Rat) :
    tally micros (fill bounds kept) = fill bounds (micros :: kept) := by
  induction bounds generalizing kept with
  | nil => rfl
  | cons bound bounds ih =>
    cases bounds with
    | nil => rfl
    | cons bound' bounds =>
      have hne : ∃ b bs, fill (bound' :: bounds) (kept.filter (bound < ·)) = b :: bs := by
        cases bounds <;> exact ⟨_, _, rfl⟩
      obtain ⟨b, bs, hfill⟩ := hne
      by_cases hfits : micros ≤ bound
      · have hfilter : (micros :: kept).filter (bound < ·) = kept.filter (bound < ·) :=
          List.filter_cons_of_neg (by simpa using hfits)
        simp only [fill, hfill, tally, if_pos hfits, hfilter, List.countP_cons, decide_eq_true_eq]
      · have hfilter : (micros :: kept).filter (bound < ·) = micros :: kept.filter (bound < ·) :=
          List.filter_cons_of_pos (by simpa using hfits)
        have hnext := ih (kept.filter (bound < ·))
        rw [hfill] at hnext
        simp only [fill, hfill, tally, if_neg hfits, hfilter, List.countP_cons, decide_eq_true_eq, hnext,
          add_zero]

theorem fill_nil (bounds : List Rat) : fill bounds [] = bounds.map fun bound => { bound := bound } := by
  induction bounds with
  | nil => rfl
  | cons bound bounds ih =>
    cases bounds with
    | nil => rfl
    | cons bound' bounds => simp only [fill, List.filter_nil, List.countP_nil, ih, List.map_cons]

/-- The latencies a histogram keeps. -/
def kept (latencies : List Rat) : List Rat := latencies.filter (0 ≤ ·)

/-! ### Within one bucket -/

/-- The fraction of the way through a bucket, as a value between its bounds. -/
theorem interpolated_mem {lower upper : Rat} (hle : lower ≤ upper) (fraction : Rat) :
    lower ≤ lower + (upper - lower) * max 0 (min fraction 1) ∧
      lower + (upper - lower) * max 0 (min fraction 1) ≤ upper := by
  have hwidth : 0 ≤ upper - lower := sub_nonneg.mpr hle
  have hlow : 0 ≤ max 0 (min fraction 1) := le_max_left _ _
  have hhigh : max 0 (min fraction 1) ≤ 1 := max_le zero_le_one (min_le_right _ _)
  constructor
  · exact le_add_of_nonneg_right (mul_nonneg hwidth hlow)
  · have hmul := mul_le_mul_of_nonneg_left hhigh hwidth
    linarith

/-- What the walk returns at the bucket it stops in lies in that bucket. -/
theorem stopped_mem {b : Bucket} {lower : Rat} (hle : lower ≤ b.bound) (fraction : Rat) :
    lower ≤ (if b.count = 0 then b.bound else lower + (b.bound - lower) * max 0 (min fraction 1)) ∧
      (if b.count = 0 then b.bound else lower + (b.bound - lower) * max 0 (min fraction 1)) ≤ b.bound := by
  by_cases hempty : b.count = 0
  · rw [if_pos hempty]
    exact ⟨hle, le_refl _⟩
  · rw [if_neg hempty]
    exact interpolated_mem hle fraction

/-! ### The walk is monotone -/

/-- The count of all buckets. -/
def total (buckets : List Bucket) : Nat := (buckets.map Bucket.count).sum

/-- The walk never goes below the bound it starts from. -/
theorem le_quantile_from {max_micros target lower : Rat} {before : Nat} {buckets : List Bucket}
    (hchain : (lower :: buckets.map Bucket.bound).IsChain (· < ·)) (hwithin : target ≤ before + total buckets)
    (hne : buckets ≠ []) : lower ≤ quantile_from max_micros target lower before buckets := by
  induction buckets generalizing lower before with
  | nil => exact absurd rfl hne
  | cons b bs ih =>
    obtain ⟨hlt, hrest⟩ := List.isChain_cons_cons.mp hchain
    simp only [quantile_from]
    by_cases hstop : target ≤ (before + b.count : Nat)
    · rw [if_pos hstop]
      exact (stopped_mem hlt.le _).1
    · rw [if_neg hstop]
      have hnext : target ≤ (before + b.count : Nat) + total bs := by
        simpa only [total, List.map_cons, List.sum_cons, Nat.cast_add, add_assoc] using hwithin
      have hbs : bs ≠ [] := by
        rintro rfl
        exact hstop (by simpa [total] using hnext)
      exact hlt.le.trans (ih hrest hnext hbs)

theorem quantile_from_mono {max_micros target target' lower : Rat} {before : Nat} {buckets : List Bucket}
    (hchain : (lower :: buckets.map Bucket.bound).IsChain (· < ·)) (hle : target ≤ target')
    (hwithin : target' ≤ before + total buckets) :
    quantile_from max_micros target lower before buckets ≤ quantile_from max_micros target' lower before buckets := by
  induction buckets generalizing lower before with
  | nil => exact le_refl _
  | cons b bs ih =>
    obtain ⟨hlt, hrest⟩ := List.isChain_cons_cons.mp hchain
    have hnext : target' ≤ (before + b.count : Nat) + total bs := by
      simpa only [total, List.map_cons, List.sum_cons, Nat.cast_add, add_assoc] using hwithin
    simp only [quantile_from]
    by_cases hstop' : target' ≤ (before + b.count : Nat)
    · rw [if_pos (hle.trans hstop'), if_pos hstop']
      by_cases hempty : b.count = 0
      · rw [if_pos hempty, if_pos hempty]
      · rw [if_neg hempty, if_neg hempty]
        have hfraction : (target - before) / b.count ≤ (target' - before) / b.count :=
          div_le_div_of_nonneg_right (sub_le_sub_right hle _) (Nat.cast_nonneg _)
        have hclamped := max_le_max_left 0 (min_le_min_right 1 hfraction)
        exact add_le_add_right (mul_le_mul_of_nonneg_left hclamped (sub_nonneg.mpr hlt.le)) _
    rw [if_neg hstop']
    by_cases hstop : target ≤ (before + b.count : Nat)
    · -- The two targets lie in different buckets, with this one's bound between them.
      rw [if_pos hstop]
      have hbs : bs ≠ [] := by
        rintro rfl
        exact hstop' (by simpa [total] using hnext)
      exact (stopped_mem hlt.le _).2.trans (le_quantile_from hrest hnext hbs)
    · rw [if_neg hstop]
      exact ih hrest hnext

/-! ### The bucket of a latency -/

/-- The lower bound of the bucket a latency is counted in. -/
def lower_of : Rat → List Rat → Rat → Rat
  | lower, bound :: bound' :: bounds, micros =>
    if micros ≤ bound then lower else lower_of bound (bound' :: bounds) micros
  | lower, _, _ => lower

/-- The upper bound of the bucket a latency is counted in. -/
def upper_of : List Rat → Rat → Rat
  | bound :: bound' :: bounds, micros => if micros ≤ bound then bound else upper_of (bound' :: bounds) micros
  | [bound], _ => bound
  | [], _ => 0

theorem le_lower_of {bounds : List Rat} {lower : Rat} (hchain : (lower :: bounds).IsChain (· < ·)) (micros : Rat) :
    lower ≤ lower_of lower bounds micros := by
  induction bounds generalizing lower with
  | nil => exact le_refl _
  | cons bound bounds ih =>
    obtain ⟨hlt, hrest⟩ := List.isChain_cons_cons.mp hchain
    cases bounds with
    | nil => exact le_refl _
    | cons bound' bounds =>
      rw [lower_of]
      split
      · exact le_refl _
      · exact hlt.le.trans (ih hrest)

theorem lower_of_mono {bounds : List Rat} {lower micros micros' : Rat}
    (hchain : (lower :: bounds).IsChain (· < ·)) (hle : micros ≤ micros') :
    lower_of lower bounds micros ≤ lower_of lower bounds micros' := by
  induction bounds generalizing lower with
  | nil => exact le_refl _
  | cons bound bounds ih =>
    obtain ⟨hlt, hrest⟩ := List.isChain_cons_cons.mp hchain
    cases bounds with
    | nil => exact le_refl _
    | cons bound' bounds =>
      rw [lower_of, lower_of]
      by_cases hfits : micros ≤ bound
      · rw [if_pos hfits]
        split
        · exact le_refl _
        · exact hlt.le.trans (le_lower_of hrest _)
      · rw [if_neg hfits, if_neg fun hfits' => hfits (hle.trans hfits')]
        exact ih hrest

/-- The least upper bound is that of the first bucket. -/
theorem le_upper_of {bound : Rat} {bounds : List Rat} (hchain : (bound :: bounds).IsChain (· < ·)) (micros : Rat) :
    bound ≤ upper_of (bound :: bounds) micros := by
  induction bounds generalizing bound with
  | nil => exact le_refl _
  | cons bound' bounds ih =>
    obtain ⟨hlt, hrest⟩ := List.isChain_cons_cons.mp hchain
    rw [upper_of]
    split
    · exact le_refl _
    · exact hlt.le.trans (ih hrest)

theorem upper_of_mono {bounds : List Rat} {micros micros' : Rat} (hchain : bounds.IsChain (· < ·))
    (hle : micros ≤ micros') : upper_of bounds micros ≤ upper_of bounds micros' := by
  induction bounds with
  | nil => exact le_refl _
  | cons bound bounds ih =>
    cases bounds with
    | nil => exact le_refl _
    | cons bound' bounds =>
      obtain ⟨hlt, hrest⟩ := List.isChain_cons_cons.mp hchain
      rw [upper_of, upper_of]
      by_cases hfits : micros ≤ bound
      · rw [if_pos hfits]
        split
        · exact le_refl _
        · exact hlt.le.trans (le_upper_of hrest _)
      · rw [if_neg hfits, if_neg fun hfits' => hfits (hle.trans hfits')]
        exact ih hrest

/-- A count splits at a bound that all of what it leaves out meets. -/
theorem countP_split (l : List Rat) (bound : Rat) {p : Rat → Bool} (hp : ∀ y, y ≤ bound → p y = true) :
    l.countP p = l.countP (· ≤ bound) + (l.filter (bound < ·)).countP p := by
  have hlow : (l.filter (· ≤ bound)).countP p = l.countP (· ≤ bound) := by
    rw [List.countP_eq_length_filter (l := l)]
    exact List.countP_eq_length.mpr fun y hy => hp y (of_decide_eq_true (List.mem_filter.mp hy).2)
  have hhigh : (l.filter fun y => !decide (y ≤ bound)) = l.filter (bound < ·) :=
    List.filter_congr fun y _ => by simp [← not_le]
  rw [List.countP_eq_countP_filter_add l p (· ≤ bound), hlow, hhigh]

/-- The walk stops in the bucket of the latency whose rank the target is. -/
theorem quantile_from_mem {bounds kept : List Rat} {max_micros target lower micros : Rat} {before : Nat}
    (hchain : (lower :: bounds).IsChain (· < ·)) (hmem : micros ∈ kept)
    (hbelow : before + (kept.countP (· < micros) : Rat) < target)
    (hreached : target ≤ before + kept.countP (· ≤ micros)) (hne : bounds ≠ []) :
    lower_of lower bounds micros ≤ quantile_from max_micros target lower before (fill bounds kept) ∧
      quantile_from max_micros target lower before (fill bounds kept) ≤ upper_of bounds micros := by
  induction bounds generalizing lower before kept with
  | nil => exact absurd rfl hne
  | cons bound bounds ih =>
    obtain ⟨hlt, hrest⟩ := List.isChain_cons_cons.mp hchain
    cases bounds with
    | nil =>
      have hall : (kept.countP (· ≤ micros) : Rat) ≤ kept.length := Nat.cast_le.mpr List.countP_le_length
      have hstop : target ≤ (before + kept.length : Nat) := by
        rw [Nat.cast_add]
        linarith
      simp only [fill, quantile_from, lower_of, upper_of]
      rw [if_pos hstop]
      exact stopped_mem (b := ⟨bound, kept.length⟩) hlt.le _
    | cons bound' bounds =>
      simp only [fill, quantile_from, lower_of, upper_of, Nat.cast_add]
      by_cases hfits : micros ≤ bound
      · have hcount : (kept.countP (· ≤ micros) : Rat) ≤ kept.countP (· ≤ bound) := by
          refine Nat.cast_le.mpr (List.countP_mono_left fun y _ hy => decide_eq_true ?_)
          exact (of_decide_eq_true hy).trans hfits
        have hstop : target ≤ before + (kept.countP (· ≤ bound) : Rat) := by linarith
        rw [if_pos hstop, if_pos hfits, if_pos hfits]
        exact stopped_mem (b := ⟨bound, kept.countP (· ≤ bound)⟩) hlt.le _
      · have hpassed : bound < micros := not_le.mp hfits
        have hcount : (kept.countP (· ≤ bound) : Rat) ≤ kept.countP (· < micros) := by
          refine Nat.cast_le.mpr (List.countP_mono_left fun y _ hy => decide_eq_true ?_)
          exact (of_decide_eq_true hy).trans_lt hpassed
        have hlt' : (kept.countP (· < micros) : Rat) =
            kept.countP (· ≤ bound) + (kept.filter (bound < ·)).countP (· < micros) := by
          rw [countP_split kept bound fun y hy => decide_eq_true (hy.trans_lt hpassed), Nat.cast_add]
        have hle' : (kept.countP (· ≤ micros) : Rat) =
            kept.countP (· ≤ bound) + (kept.filter (bound < ·)).countP (· ≤ micros) := by
          rw [countP_split kept bound fun y hy => decide_eq_true (hy.trans hpassed.le), Nat.cast_add]
        have hpast : ¬ target ≤ before + (kept.countP (· ≤ bound) : Rat) := by linarith
        have hmem' : micros ∈ kept.filter (bound < ·) := List.mem_filter.mpr ⟨hmem, decide_eq_true hpassed⟩
        rw [if_neg hpast, if_neg hfits, if_neg hfits]
        refine ih hrest hmem' ?_ ?_ (List.cons_ne_nil _ _)
        · rw [Nat.cast_add, add_assoc, ← hlt']
          exact hbelow
        · rw [Nat.cast_add, add_assoc, ← hle']
          exact hreached

/-! ### After a sequence of latencies -/

/-- A histogram holds just the latencies it kept. -/
structure Holds (bounds : List Rat) (h : LatencyHistogram) (kept : List Rat) : Prop where
  buckets : h.buckets = fill bounds kept
  count : h.count = kept.length
  sum : h.sum_micros = kept.sum
  least : h.least_micros = kept.min?
  max : h.max_micros = kept.max?.getD 0

theorem holds_over_bounds (bounds : BucketBounds) : Holds bounds.values (over_bounds bounds) [] where
  buckets := (fill_nil bounds.values).symm
  count := rfl
  sum := rfl
  least := rfl
  max := rfl

theorem Holds.record_micros {bounds : List Rat} {h : LatencyHistogram} {past : List Rat}
    (hholds : Holds bounds h (kept past)) (micros : Rat) :
    Holds bounds (h.record_micros micros) (kept (micros :: past)) := by
  by_cases hneg : micros < 0
  · have hskip : kept (micros :: past) = kept past := List.filter_cons_of_neg (by simpa using hneg)
    rw [LatencyHistogram.record_micros, if_pos (Or.inr hneg), hskip]
    exact hholds
  have hnonneg : 0 ≤ micros := not_lt.mp hneg
  have hkeep : kept (micros :: past) = micros :: kept past := List.filter_cons_of_pos (by simpa using hnonneg)
  have hrefused : ¬ (¬ is_finite micros ∨ micros < 0) := by simpa using hneg
  rw [LatencyHistogram.record_micros, if_neg hrefused, hkeep]
  refine ⟨?_, ?_, ?_, ?_, ?_⟩
  · exact hholds.buckets ▸ tally_fill bounds (kept past) micros
  · exact congrArg (· + 1) hholds.count
  · rw [List.sum_cons, ← hholds.sum]
    exact add_comm _ _
  · rw [List.min?_cons, ← hholds.least]
    cases h.least_micros with
    | none => rfl
    | some least => exact congrArg some (min_comm least micros)
  · rw [List.max?_cons, hholds.max]
    cases (kept past).max? with
    | none => exact max_eq_right hnonneg
    | some most => exact max_comm most micros

/-- What a histogram holds, the newest latency first. -/
theorem holds_recorded (bounds : BucketBounds) (latencies : List Rat) :
    Holds bounds.values ((over_bounds bounds).recorded latencies) (kept latencies.reverse) :=
  Series.foldl_tracks (P := fun h past => Holds bounds.values h (kept past)) (holds_over_bounds bounds)
    (fun _ _ micros hholds => hholds.record_micros micros) latencies

/-- Recording counts a latency in one bucket, so the buckets hold the count. -/
theorem total_fill {bounds : List Rat} (hne : bounds ≠ []) (kept : List Rat) : total (fill bounds kept) = kept.length := by
  induction bounds generalizing kept with
  | nil => exact absurd rfl hne
  | cons bound bounds ih =>
    cases bounds with
    | nil => rfl
    | cons bound' bounds =>
      have hrest := ih (List.cons_ne_nil _ _) (kept.filter (bound < ·))
      have hsplit := countP_split kept bound (p := fun _ => true) fun _ _ => rfl
      simp only [List.countP_true] at hsplit
      rw [hsplit, ← hrest]
      rfl

theorem bounds_fill (bounds kept : List Rat) : (fill bounds kept).map Bucket.bound = bounds := by
  induction bounds generalizing kept with
  | nil => rfl
  | cons bound bounds ih =>
    cases bounds with
    | nil => rfl
    | cons bound' bounds => exact congrArg (bound :: ·) (ih _)

/-! ### Quantiles -/

/-- A quantile never falls as its level rises. -/
theorem quantile_micros_mono (bounds : BucketBounds) (latencies : List Rat) {q q' : Rat} (hle : q ≤ q') :
    ((over_bounds bounds).recorded latencies).quantile_micros q ≤
      ((over_bounds bounds).recorded latencies).quantile_micros q' := by
  have hholds := holds_recorded bounds latencies
  revert hholds
  generalize (over_bounds bounds).recorded latencies = h
  intro hholds
  by_cases hempty : h.count = 0
  · simp [quantile_micros, hempty]
  have hcount : (0 : Rat) ≤ h.count := Nat.cast_nonneg _
  have htarget : max 0 (min q 1) * h.count ≤ max 0 (min q' 1) * h.count :=
    mul_le_mul_of_nonneg_right (max_le_max_left 0 (min_le_min_right 1 hle)) hcount
  have hwithin : max 0 (min q' 1) * h.count ≤ ((0 : ℕ) : Rat) + total h.buckets := by
    rw [hholds.buckets, total_fill bounds.ne_nil, ← hholds.count, Nat.cast_zero, zero_add]
    exact mul_le_of_le_one_left hcount (max_le zero_le_one (min_le_right _ _))
  simp only [quantile_micros, hempty, is_finite_eq_true, not_true_eq_false, or_self, if_false]
  refine quantile_from_mono ?_ htarget hwithin
  rw [hholds.buckets, bounds_fill]
  exact bounds.increasing

/-- A quantile lies in the bucket of the latency with its rank. -/
theorem exists_rank_quantile (bounds : BucketBounds) (latencies : List Rat) {q : Rat} (hpos : 0 < q) (hle : q ≤ 1)
    (hne : kept latencies ≠ []) :
    ∃ micros ∈ kept latencies,
      ((kept latencies).countP (· < micros) : Rat) < q * (kept latencies).length ∧
        q * (kept latencies).length ≤ (kept latencies).countP (· ≤ micros) ∧
        lower_of 0 bounds.values micros ≤ ((over_bounds bounds).recorded latencies).quantile_micros q ∧
        ((over_bounds bounds).recorded latencies).quantile_micros q ≤ upper_of bounds.values micros := by
  have hholds := holds_recorded bounds latencies
  revert hholds
  generalize (over_bounds bounds).recorded latencies = h
  intro hholds
  have hperm : (kept latencies.reverse).Perm (kept latencies) := (List.reverse_perm latencies).filter _
  have hlength : (0 : Rat) < (kept latencies).length := Nat.cast_pos.mpr (List.length_pos_iff.mpr hne)
  have hrank : 0 < ⌈q * (kept latencies).length⌉₊ := Nat.ceil_pos.mpr (mul_pos hpos hlength)
  have hwithin : ⌈q * (kept latencies).length⌉₊ ≤ (kept latencies).length :=
    Nat.ceil_le.mpr (mul_le_of_le_one_left hlength.le hle)
  obtain ⟨micros, hmem, hbelow, hreached⟩ := Ranking.exists_nearest_rank hrank hwithin
  have hbelow := Nat.lt_ceil.mp hbelow
  have hreached := Nat.ceil_le.mp hreached
  have hcount : h.count = (kept latencies).length := hholds.count.trans hperm.length_eq
  have hnonempty : ¬ h.count = 0 := by
    rw [hcount]
    exact (List.length_pos_iff.mpr hne).ne'
  have htarget : h.quantile_micros q =
      quantile_from h.max_micros (q * (kept latencies).length) 0 0 (fill bounds.values (kept latencies.reverse)) := by
    simp only [quantile_micros, hnonempty, is_finite_eq_true, not_true_eq_false, or_self, if_false]
    rw [min_eq_left hle, max_eq_right hpos.le, hholds.buckets, hcount]
  refine ⟨micros, hmem, hbelow, hreached, ?_⟩
  rw [htarget]
  refine quantile_from_mem bounds.increasing (hperm.mem_iff.mpr hmem) ?_ ?_ bounds.ne_nil
  · rw [hperm.countP_eq, Nat.cast_zero, zero_add]
    exact hbelow
  · rw [hperm.countP_eq, Nat.cast_zero, zero_add]
    exact hreached

theorem Holds.min_micros_le {bounds : List Rat} {h : LatencyHistogram} {kept : List Rat} (hholds : Holds bounds h kept)
    {micros : Rat} (hmem : micros ∈ kept) : h.min_micros ≤ micros := by
  have hnonempty : ¬ h.count = 0 := by
    rw [hholds.count]
    exact (List.length_pos_of_mem hmem).ne'
  rw [min_micros, if_neg hnonempty, hholds.least]
  cases hmin : kept.min? with
  | none => exact absurd (List.min?_eq_none_iff.mp hmin ▸ hmem) List.not_mem_nil
  | some least => exact (List.min?_eq_some_iff.mp hmin).2 micros hmem

theorem Holds.le_max_micros {bounds : List Rat} {h : LatencyHistogram} {kept : List Rat} (hholds : Holds bounds h kept)
    {micros : Rat} (hmem : micros ∈ kept) : micros ≤ h.max_micros := by
  rw [hholds.max]
  cases hmax : kept.max? with
  | none => exact absurd (List.max?_eq_none_iff.mp hmax ▸ hmem) List.not_mem_nil
  | some most => exact (List.max?_eq_some_iff.mp hmax).2 micros hmem

/-- An empty histogram answers zero. -/
theorem Holds.of_kept_nil {bounds : List Rat} {h : LatencyHistogram} (hholds : Holds bounds h []) :
    h.min_micros = 0 ∧ h.max_micros = 0 ∧ ∀ q, h.quantile_micros q = 0 := by
  have hcount : h.count = 0 := hholds.count
  refine ⟨?_, hholds.max, fun q => ?_⟩
  · rw [min_micros, if_pos hcount]
  · rw [quantile_micros, if_pos (Or.inl hcount)]

theorem lower_of_zero (bounds : BucketBounds) : lower_of 0 bounds.values 0 = 0 := by
  have hincreasing := bounds.increasing
  revert hincreasing
  rcases bounds.values with _ | ⟨bound, _ | ⟨bound', rest⟩⟩
  · exact fun _ => rfl
  · exact fun _ => rfl
  · intro hincreasing
    exact if_pos (List.isChain_cons_cons.mp hincreasing).1.le

theorem upper_of_nonneg (bounds : BucketBounds) (micros : Rat) : 0 ≤ upper_of bounds.values micros := by
  have hincreasing := bounds.increasing
  revert hincreasing
  cases bounds.values with
  | nil => exact fun _ => le_refl _
  | cons bound rest =>
    intro hincreasing
    obtain ⟨hlt, hrest⟩ := List.isChain_cons_cons.mp hincreasing
    exact hlt.le.trans (le_upper_of hrest micros)

/-- Quantiles rise with their level, and stay between the bounds of the buckets
of the extremes. -/
theorem quantile_micros_brackets (bounds : BucketBounds) (latencies : List Rat) :
    (∀ q q', q ≤ q' → ((over_bounds bounds).recorded latencies).quantile_micros q ≤
      ((over_bounds bounds).recorded latencies).quantile_micros q') ∧
    (∀ q, 0 < q → q ≤ 1 → kept latencies ≠ [] → ∃ micros ∈ kept latencies,
      ((kept latencies).countP (· < micros) : Rat) < q * (kept latencies).length ∧
        q * (kept latencies).length ≤ (kept latencies).countP (· ≤ micros) ∧
        lower_of 0 bounds.values micros ≤ ((over_bounds bounds).recorded latencies).quantile_micros q ∧
        ((over_bounds bounds).recorded latencies).quantile_micros q ≤ upper_of bounds.values micros) ∧
    (∀ q, 0 < q → q ≤ 1 →
      lower_of 0 bounds.values ((over_bounds bounds).recorded latencies).min_micros ≤
        ((over_bounds bounds).recorded latencies).quantile_micros q) ∧
    ∀ q, q ≤ 1 → ((over_bounds bounds).recorded latencies).quantile_micros q ≤
      upper_of bounds.values ((over_bounds bounds).recorded latencies).max_micros := by
  have hmono := fun (q q' : Rat) (hle : q ≤ q') => quantile_micros_mono bounds latencies hle
  have hrank := fun (q : Rat) (hpos : 0 < q) (hle : q ≤ 1) => exists_rank_quantile bounds latencies hpos hle
  have hholds := holds_recorded bounds latencies
  have hperm : (kept latencies.reverse).Perm (kept latencies) := (List.reverse_perm latencies).filter _
  refine ⟨hmono, hrank, ?_⟩
  by_cases hne : kept latencies = []
  · rw [hne] at hperm
    rw [List.perm_nil.mp hperm] at hholds
    obtain ⟨hmin, hmax, hzero⟩ := hholds.of_kept_nil
    refine ⟨fun q _ _ => ?_, fun q _ => ?_⟩
    · rw [hmin, hzero]
      exact (lower_of_zero bounds).le
    · rw [hzero]
      exact upper_of_nonneg bounds _
  · refine ⟨fun q hpos hle => ?_, fun q hle => ?_⟩
    · obtain ⟨micros, hmem, _, _, hlower, _⟩ := hrank q hpos hle hne
      have hleast := hholds.min_micros_le (hperm.mem_iff.mpr hmem)
      exact (lower_of_mono bounds.increasing hleast).trans hlower
    · obtain ⟨micros, hmem, _, _, _, hupper⟩ := hrank 1 one_pos (le_refl _) hne
      have hmost := hholds.le_max_micros (hperm.mem_iff.mpr hmem)
      have hincreasing : bounds.values.IsChain (· < ·) := bounds.increasing.of_cons
      exact (hmono q 1 hle).trans (hupper.trans (upper_of_mono hincreasing hmost))

/-- One latency of five microseconds: every quantile of it is in its bucket, and
the highest is the bucket's bound. -/
theorem quantile_micros_leaves_the_extremes :
    ¬ ∀ (bounds : BucketBounds) (latencies : List Rat) (q : Rat), 0 ≤ q → q ≤ 1 →
      ((over_bounds bounds).recorded latencies).min_micros ≤
          ((over_bounds bounds).recorded latencies).quantile_micros q ∧
        ((over_bounds bounds).recorded latencies).quantile_micros q ≤
          ((over_bounds bounds).recorded latencies).max_micros := by
  intro hall
  exact absurd (hall decades [5] 1 zero_le_one (le_refl _)).2 (by decide +kernel)

end LatencyHistogram

end ptl.ops
