import TradingLab.Features.Rolling

open Series

namespace ptl.features

variable {K : Type*} [Field K]

/-- The sums are of the deviations of both series from a reference point. -/
structure RollingCovariance (K : Type*) where
  xs : RingBuffer K
  ys : RingBuffer K
  window : Nat
  sx : K
  sy : K
  sxx : K
  syy : K
  sxy : K
  ref_x : K
  ref_y : K
  have_ref : Bool := false
  evicting : Bool := false
  since_recompute : Nat := 0

open RollingCovariance

def RollingCovariance.new (window : Nat) : RollingCovariance K where
  xs := RingBuffer.new (max 2 window) (max_two_pos window)
  ys := RingBuffer.new (max 2 window) (max_two_pos window)
  window := max 2 window
  sx := 0
  sy := 0
  sxx := 0
  syy := 0
  sxy := 0
  ref_x := 0
  ref_y := 0

/-- Sum of a quantity over the pairs of the two buffers, from the newest on. -/
def RollingCovariance.sumOver (c : RollingCovariance K) (f : K × K → K) : K :=
  (List.range c.xs.size).foldl (fun s i => s + f (c.xs.at_lag i, c.ys.at_lag i)) 0

/-- The means of the buffers become the references. -/
def RollingCovariance.recompute (c : RollingCovariance K) : RollingCovariance K :=
  if c.xs.size = 0 then { c with since_recompute := 0 }
  else
    let ref_x := c.sumOver Prod.fst / c.xs.size
    let ref_y := c.sumOver Prod.snd / c.xs.size
    { c with
      ref_x, ref_y
      sx := c.sumOver fun p => p.1 - ref_x
      sy := c.sumOver fun p => p.2 - ref_y
      sxx := c.sumOver fun p => (p.1 - ref_x) * (p.1 - ref_x)
      syy := c.sumOver fun p => (p.2 - ref_y) * (p.2 - ref_y)
      sxy := c.sumOver fun p => (p.1 - ref_x) * (p.2 - ref_y)
      since_recompute := 0 }

/-- An update up to the periodic recomputation. -/
def RollingCovariance.accumulate (c : RollingCovariance K) (p : K × K) : RollingCovariance K :=
  let ref_x := if c.have_ref then c.ref_x else p.1
  let ref_y := if c.have_ref then c.ref_y else p.2
  let dx := p.1 - ref_x
  let dy := p.2 - ref_y
  let (ex, xs) := c.xs.push p.1
  let (ey, ys) := c.ys.push p.2
  let edx := ex - ref_x
  let edy := ey - ref_y
  -- While the rings are filling, the evicted values are placeholders.
  { c with
    xs, ys, ref_x, ref_y
    have_ref := true
    sx := (if c.evicting then c.sx - edx else c.sx) + dx
    sy := (if c.evicting then c.sy - edy else c.sy) + dy
    sxx := (if c.evicting then c.sxx - edx * edx else c.sxx) + dx * dx
    syy := (if c.evicting then c.syy - edy * edy else c.syy) + dy * dy
    sxy := (if c.evicting then c.sxy - edx * edy else c.sxy) + dx * dy
    evicting := c.evicting || xs.full
    since_recompute := c.since_recompute + 1 }

def RollingCovariance.update (c : RollingCovariance K) (p : K × K) : RollingCovariance K :=
  let c := c.accumulate p
  if c.window ≤ c.since_recompute then c.recompute else c

def RollingCovariance.value (c : RollingCovariance K) : K :=
  if c.xs.size < 2 then 0 else (c.sxy - c.sx * c.sy / c.xs.size) / (c.xs.size - 1)

def RollingCovariance.var_from [LinearOrder K] (c : RollingCovariance K) (sumsq sum : K) : K :=
  if c.xs.size < 2 then 0 else max 0 (sumsq - sum * sum / c.xs.size) / (c.xs.size - 1)

def RollingCovariance.variance_x [LinearOrder K] (c : RollingCovariance K) : K := c.var_from c.sxx c.sx

def RollingCovariance.variance_y [LinearOrder K] (c : RollingCovariance K) : K := c.var_from c.syy c.sy

def RollingCovariance.ready (c : RollingCovariance K) : Bool := c.xs.full

/-! ### The window -/

/-- The buffers hold the two series, and each sum is over the window. -/
structure RollingCovariance.Tracks (c : RollingCovariance K) (past : List (K × K)) : Prop where
  holds_x : c.xs.Holds (past.map Prod.fst)
  holds_y : c.ys.Holds (past.map Prod.snd)
  same_capacity : c.ys.capacity = c.xs.capacity
  evicting_eq : c.evicting = c.xs.full
  unset : c.have_ref = false → past = []
  sx_eq : c.sx = ((past.take c.xs.capacity).map fun p => p.1 - c.ref_x).sum
  sy_eq : c.sy = ((past.take c.xs.capacity).map fun p => p.2 - c.ref_y).sum
  sxx_eq : c.sxx = ((past.take c.xs.capacity).map fun p => (p.1 - c.ref_x) * (p.1 - c.ref_x)).sum
  syy_eq : c.syy = ((past.take c.xs.capacity).map fun p => (p.2 - c.ref_y) * (p.2 - c.ref_y)).sum
  sxy_eq : c.sxy = ((past.take c.xs.capacity).map fun p => (p.1 - c.ref_x) * (p.2 - c.ref_y)).sum

section Tracking

variable {c : RollingCovariance K} {past : List (K × K)}

theorem RollingCovariance.Tracks.size_eq (htracks : c.Tracks past) :
    c.xs.size = (past.take c.xs.capacity).length := by
  rw [htracks.holds_x.size_eq_length, List.length_take, List.length_take, List.length_map]

theorem RollingCovariance.Tracks.sumOver (htracks : c.Tracks past) (f : K × K → K) :
    c.sumOver f = ((past.take c.xs.capacity).map f).sum := by
  have hpairs : (List.range c.xs.size).map (fun i => (c.xs.at_lag i, c.ys.at_lag i)) =
      past.take c.xs.capacity := by
    refine List.ext_getElem? fun k => ?_
    rw [htracks.size_eq]
    by_cases hk : k < (past.take c.xs.capacity).length
    · rw [List.getElem?_map, List.getElem?_range hk, Option.map_some, htracks.holds_x.at_lag,
        htracks.holds_y.at_lag, htracks.same_capacity, ← List.map_take, ← List.map_take, List.getElem?_map,
        List.getElem?_map, List.getElem?_eq_getElem hk, Option.map_some, Option.map_some, Option.getD_some,
        Option.getD_some]
    · rw [List.getElem?_eq_none (by simpa using not_lt.mp hk), List.getElem?_eq_none (not_lt.mp hk)]
  rw [RollingCovariance.sumOver, foldl_add_eq_sum (fun i => f (c.xs.at_lag i, c.ys.at_lag i)), zero_add,
    ← hpairs, List.map_map]
  rfl

theorem RollingCovariance.recompute_buffers (c : RollingCovariance K) :
    c.recompute.xs = c.xs ∧ c.recompute.ys = c.ys := by
  unfold recompute
  split
  · exact ⟨rfl, rfl⟩
  · exact ⟨rfl, rfl⟩

theorem RollingCovariance.recompute_tracks (htracks : c.Tracks past) : c.recompute.Tracks past := by
  unfold recompute
  split
  · exact { htracks with }
  · let ref_x := c.sumOver Prod.fst / c.xs.size
    let ref_y := c.sumOver Prod.snd / c.xs.size
    exact { htracks with
      sx_eq := htracks.sumOver fun p => p.1 - ref_x
      sy_eq := htracks.sumOver fun p => p.2 - ref_y
      sxx_eq := htracks.sumOver fun p => (p.1 - ref_x) * (p.1 - ref_x)
      syy_eq := htracks.sumOver fun p => (p.2 - ref_y) * (p.2 - ref_y)
      sxy_eq := htracks.sumOver fun p => (p.1 - ref_x) * (p.2 - ref_y) }

/-- A sum over the window after a push: the evicted pair is taken off only
where the rings were full. -/
theorem RollingCovariance.Tracks.sum_push (htracks : c.Tracks past) (f : K × K → K) (p : K × K) :
    (((p :: past).take c.xs.capacity).map f).sum =
      (if c.evicting then ((past.take c.xs.capacity).map f).sum - f ((c.xs.push p.1).1, (c.ys.push p.2).1)
        else ((past.take c.xs.capacity).map f).sum) + f p := by
  have hpos := c.xs.capacity_pos
  rw [sum_take_cons f p past hpos, htracks.holds_x.evicted, htracks.holds_y.evicted, htracks.same_capacity,
    htracks.evicting_eq]
  have hfull := htracks.holds_x.full_iff
  rw [List.length_map] at hfull
  split
  · rename_i hisfull
    have hlast : c.xs.capacity - 1 < past.length := by
      have hlong := hfull.mp hisfull
      omega
    rw [List.getElem?_map, List.getElem?_map, List.getElem?_eq_getElem hlast]
    simp only [Option.elim_some, Option.map_some, Option.getD_some]
    ring
  · rename_i hfilling
    have hshort : past.length ≤ c.xs.capacity - 1 := by
      have hlt : ¬ c.xs.capacity ≤ past.length := fun hlong => hfilling (hfull.mpr hlong)
      omega
    rw [List.getElem?_eq_none hshort, Option.elim_none, sub_zero]

theorem RollingCovariance.Tracks.accumulate (htracks : c.Tracks past) (p : K × K) :
    (c.accumulate p).Tracks (p :: past) := by
  have hpushed := htracks.holds_x.push p.1
  -- Before the first pair the window is empty, so the references may be moved.
  have hmoved : ∀ f : K → K → K × K → K, ((past.take c.xs.capacity).map (f c.ref_x c.ref_y)).sum =
      ((past.take c.xs.capacity).map
        (f (if c.have_ref then c.ref_x else p.1) (if c.have_ref then c.ref_y else p.2))).sum := by
    intro f
    cases href : c.have_ref with
    | true => rfl
    | false =>
      rw [htracks.unset href, List.take_nil]
      rfl
  have hlast : (c.evicting || (c.xs.push p.1).2.full) = (c.xs.push p.1).2.full := by
    rw [htracks.evicting_eq]
    cases hfull : c.xs.full with
    | false => rw [Bool.false_or]
    | true =>
      rw [Bool.true_or, eq_comm, hpushed.full_iff, RingBuffer.push_capacity, List.length_cons]
      exact Nat.le_succ_of_le (htracks.holds_x.full_iff.mp hfull)
  refine ⟨hpushed, htracks.holds_y.push p.2, ?_, hlast, fun hfalse => (by cases hfalse), ?_, ?_, ?_, ?_, ?_⟩
  · simp only [RollingCovariance.accumulate, RingBuffer.push_capacity]
    exact htracks.same_capacity
  · simp only [RollingCovariance.accumulate, RingBuffer.push_capacity]
    rw [htracks.sum_push, htracks.sx_eq, hmoved fun rx _ q => q.1 - rx]
  · simp only [RollingCovariance.accumulate, RingBuffer.push_capacity]
    rw [htracks.sum_push, htracks.sy_eq, hmoved fun _ ry q => q.2 - ry]
  · simp only [RollingCovariance.accumulate, RingBuffer.push_capacity]
    rw [htracks.sum_push, htracks.sxx_eq, hmoved fun rx _ q => (q.1 - rx) * (q.1 - rx)]
  · simp only [RollingCovariance.accumulate, RingBuffer.push_capacity]
    rw [htracks.sum_push, htracks.syy_eq, hmoved fun _ ry q => (q.2 - ry) * (q.2 - ry)]
  · simp only [RollingCovariance.accumulate, RingBuffer.push_capacity]
    rw [htracks.sum_push, htracks.sxy_eq, hmoved fun rx ry q => (q.1 - rx) * (q.2 - ry)]

theorem RollingCovariance.Tracks.update (htracks : c.Tracks past) (p : K × K) :
    (c.update p).Tracks (p :: past) ∧ (c.update p).xs.capacity = c.xs.capacity := by
  have hpushed : (c.accumulate p).xs.capacity = c.xs.capacity := RingBuffer.push_capacity c.xs p.1
  unfold RollingCovariance.update
  dsimp only
  split
  · refine ⟨RollingCovariance.recompute_tracks (htracks.accumulate p), ?_⟩
    rw [(recompute_buffers _).1, hpushed]
  · exact ⟨htracks.accumulate p, hpushed⟩

end Tracking

theorem RollingCovariance.stream_tracks (window : Nat) (ps : List (K × K)) :
    (ps.foldl update (RollingCovariance.new window)).Tracks ps.reverse ∧
      (ps.foldl update (RollingCovariance.new window)).xs.capacity = max 2 window := by
  have hpos := max_two_pos window
  have hnew : (RollingCovariance.new window : RollingCovariance K).Tracks [] := by
    refine ⟨RingBuffer.new_holds hpos, RingBuffer.new_holds hpos, rfl, rfl, fun _ => rfl, ?_, ?_, ?_, ?_, ?_⟩ <;>
      rw [List.take_nil] <;> rfl
  exact foldl_tracks (P := fun (c : RollingCovariance K) past => c.Tracks past ∧ c.xs.capacity = max 2 window)
    ⟨hnew, RingBuffer.new_capacity hpos⟩
    (fun c past p ⟨hc, hcap⟩ => ⟨(hc.update p).1, (hc.update p).2.trans hcap⟩) ps

section Values

variable [LinearOrder K] [IsStrictOrderedRing K] {c : RollingCovariance K} {past : List (K × K)}

theorem RollingCovariance.Tracks.value_eq (htracks : c.Tracks past) :
    c.value = sampleCovariance Prod.fst Prod.snd (past.take c.xs.capacity) := by
  unfold value sampleCovariance
  rw [htracks.sxy_eq, htracks.sx_eq, htracks.sy_eq, htracks.size_eq]
  split
  · rename_i hshort
    rw [comoment_short _ _ hshort, zero_div]
  · rw [comoment_shift]

/-- Either variance, from the sums it is computed from. -/
theorem RollingCovariance.Tracks.var_from_eq (htracks : c.Tracks past) (f : K × K → K) (r : K) :
    c.var_from ((past.take c.xs.capacity).map fun p => (f p - r) * (f p - r)).sum
        ((past.take c.xs.capacity).map fun p => f p - r).sum =
      sampleCovariance f f (past.take c.xs.capacity) := by
  unfold var_from sampleCovariance
  rw [htracks.size_eq]
  split
  · rename_i hshort
    rw [comoment_short _ _ hshort, zero_div]
  · rw [comoment_shift, max_eq_right (comoment_self_nonneg _ _)]

/-- After any stream of pairs the covariance and the variances are those of
the window. -/
theorem RollingCovariance.value_stream (window : Nat) (ps : List (K × K)) :
    (ps.foldl update (RollingCovariance.new window)).value =
        sampleCovariance Prod.fst Prod.snd (recent (max 2 window) ps) ∧
      (ps.foldl update (RollingCovariance.new window)).variance_x =
        sampleCovariance Prod.fst Prod.fst (recent (max 2 window) ps) ∧
      (ps.foldl update (RollingCovariance.new window)).variance_y =
        sampleCovariance Prod.snd Prod.snd (recent (max 2 window) ps) := by
  obtain ⟨htracks, hcap⟩ := stream_tracks window ps
  refine ⟨?_, ?_, ?_⟩
  · rw [htracks.value_eq, hcap, recent]
  · rw [variance_x, htracks.sxx_eq, htracks.sx_eq, htracks.var_from_eq, hcap, recent]
  · rw [variance_y, htracks.syy_eq, htracks.sy_eq, htracks.var_from_eq, hcap, recent]

end Values

/-! ### Beta -/

/-- The slope of the second series on the first. -/
structure RollingBeta (K : Type*) where
  cov : RollingCovariance K

def RollingBeta.new (window : Nat) : RollingBeta K := { cov := RollingCovariance.new window }

def RollingBeta.update (b : RollingBeta K) (market asset : K) : RollingBeta K :=
  { cov := b.cov.update (market, asset) }

/-- A market without variance explains nothing. -/
def RollingBeta.value [LinearOrder K] (b : RollingBeta K) : K :=
  let vm := b.cov.variance_x
  if vm ≤ 0 then 0 else b.cov.value / vm

def RollingBeta.residual [LinearOrder K] (b : RollingBeta K) (market asset : K) : K :=
  asset - b.value * market

def RollingBeta.ready (b : RollingBeta K) : Bool := b.cov.ready

end ptl.features
