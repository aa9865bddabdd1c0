import Mathlib.Data.Nat.ModEq
import Mathlib.Tactic.Linarith
import TradingLab.Moments
import TradingLab.SlidingDeque

open Series

namespace ptl.features

variable {K : Type*}

/-- A circular buffer. Every user constructs it with a positive capacity, so
the head is always a place of it. -/
structure RingBuffer (K : Type*) where
  data : List K
  head : Nat := 0
  size : Nat := 0
  full : Bool := false
  head_lt : head < data.length

def RingBuffer.capacity (b : RingBuffer K) : Nat := b.data.length

theorem RingBuffer.capacity_pos (b : RingBuffer K) : 0 < b.capacity := (Nat.zero_le _).trans_lt b.head_lt

theorem RingBuffer.next_lt (b : RingBuffer K) (x : K) :
    (b.head + 1) % b.data.length < (b.data.set b.head x).length := by
  rw [List.length_set]
  exact Nat.mod_lt _ b.capacity_pos

section Operations

variable [Zero K]

theorem replicate_pos {capacity : Nat} (hpos : 0 < capacity) :
    0 < (List.replicate capacity (0 : K)).length := by
  rw [List.length_replicate]
  exact hpos

def RingBuffer.new (capacity : Nat) (hpos : 0 < capacity) : RingBuffer K where
  data := List.replicate capacity 0
  head_lt := replicate_pos hpos

/-- The value evicted, zero while still filling, and the buffer after it. -/
def RingBuffer.push (b : RingBuffer K) (x : K) : K × RingBuffer K :=
  let evicted := if b.full then b.data.getD b.head 0 else 0
  let size := if b.full then b.size else b.size + 1
  (evicted, {
    data := b.data.set b.head x
    head := (b.head + 1) % b.data.length
    size
    full := b.full || size == b.data.length
    head_lt := b.next_lt x })

/-- `k` steps back; zero is the newest. -/
def RingBuffer.at_lag (b : RingBuffer K) (k : Nat) : K :=
  if b.size ≤ k then 0 else b.data.getD ((b.head + b.data.length - 1 - k) % b.data.length) 0

end Operations

/-! ### What the buffer holds -/

/-- The buffer after these values were pushed, newest first. -/
structure RingBuffer.Holds (b : RingBuffer K) (past : List K) : Prop where
  head_eq : b.head = past.length % b.capacity
  size_eq : b.size = min past.length b.capacity
  full_iff : b.full = true ↔ b.capacity ≤ past.length
  kept : ∀ k < b.size, b.data[(past.length - 1 - k) % b.capacity]? = past[k]?

theorem RingBuffer.Holds.size_eq_length {b : RingBuffer K} {past : List K} (hholds : b.Holds past) :
    b.size = (past.take b.capacity).length := by
  rw [hholds.size_eq, List.length_take, Nat.min_comm]

variable [Zero K]

theorem RingBuffer.new_holds {capacity : Nat} (hpos : 0 < capacity) :
    (RingBuffer.new capacity hpos : RingBuffer K).Holds [] := by
  refine ⟨(Nat.zero_mod _).symm, (Nat.zero_min _).symm, ?_, fun k hk => absurd hk (Nat.not_lt_zero k)⟩
  simp [RingBuffer.new, RingBuffer.capacity, Nat.ne_of_gt hpos]

@[simp] theorem RingBuffer.new_capacity {capacity : Nat} (hpos : 0 < capacity) :
    (RingBuffer.new capacity hpos : RingBuffer K).capacity = capacity := List.length_replicate

@[simp] theorem RingBuffer.push_capacity (b : RingBuffer K) (x : K) : (b.push x).2.capacity = b.capacity :=
  List.length_set

/-- Two places less than a whole turn apart are different. -/
theorem mod_ne_of_lt {a b c : Nat} (hlt : a < b) (hturn : b < a + c) : a % c ≠ b % c := by
  intro heq
  have hdvd : c ∣ b - a := (Nat.modEq_iff_dvd' (le_of_lt hlt)).mp heq
  have hle := Nat.le_of_dvd (by omega) hdvd
  omega

section Push

variable {b : RingBuffer K} {past : List K}

theorem RingBuffer.Holds.push (hholds : b.Holds past) (x : K) : (b.push x).2.Holds (x :: past) := by
  obtain ⟨hhead, hsize, hfull, hkept⟩ := hholds
  have hpos := b.capacity_pos
  have hsize' : (b.push x).2.size = min (past.length + 1) b.capacity := by
    simp only [RingBuffer.push, hsize, hfull]
    split
    · omega
    · omega
  refine ⟨?_, ?_, ?_, fun k hk => ?_⟩
  · rw [RingBuffer.push_capacity, List.length_cons]
    simp only [RingBuffer.push]
    rw [hhead]
    exact Nat.mod_add_mod _ _ _
  · rw [RingBuffer.push_capacity, List.length_cons, hsize']
  · have hlast : (b.push x).2.full = (b.full || (b.push x).2.size == b.capacity) := rfl
    rw [hlast, hsize', RingBuffer.push_capacity, List.length_cons, Bool.or_eq_true, hfull, beq_iff_eq]
    omega
  · rw [RingBuffer.push_capacity, List.length_cons]
    have hdata : (b.push x).2.data = b.data.set b.head x := rfl
    rw [hsize'] at hk
    rw [hdata, hhead]
    cases k with
    | zero =>
      rw [Nat.sub_zero, Nat.add_sub_cancel, List.getElem?_set_self]
      · rfl
      · exact Nat.mod_lt _ hpos
    | succ k =>
      -- The newest value took the place a whole turn behind it.
      have hother : past.length % b.capacity ≠ (past.length + 1 - 1 - (k + 1)) % b.capacity :=
        (mod_ne_of_lt (by omega) (by omega)).symm
      rw [List.getElem?_set_ne hother, List.getElem?_cons_succ, ← hkept k (by omega)]
      congr 2
      omega

/-- What a push evicts: the value a whole turn back, if there is one. -/
theorem RingBuffer.Holds.evicted (hholds : b.Holds past) (x : K) :
    (b.push x).1 = (past[b.capacity - 1]?).getD 0 := by
  obtain ⟨hhead, hsize, hfull, hkept⟩ := hholds
  have hpos := b.capacity_pos
  simp only [RingBuffer.push]
  split
  · rename_i hisfull
    have hlong := hfull.mp hisfull
    have hplace : (past.length - 1 - (b.capacity - 1)) % b.capacity = b.head := by
      rw [hhead, show past.length - 1 - (b.capacity - 1) = past.length - b.capacity by omega]
      exact (Nat.mod_eq_sub_mod hlong).symm
    rw [← hkept (b.capacity - 1) (by omega), hplace, List.getD_eq_getElem?_getD]
  · rename_i hfilling
    have hshort : past.length < b.capacity := not_le.mp fun hlong => hfilling (hfull.mpr hlong)
    rw [List.getElem?_eq_none (by omega), Option.getD_none]

/-- The value `k` steps back is the `k`-th most recent one of the window. -/
theorem RingBuffer.Holds.at_lag (hholds : b.Holds past) (k : Nat) :
    b.at_lag k = ((past.take b.capacity)[k]?).getD 0 := by
  obtain ⟨hhead, hsize, -, hkept⟩ := hholds
  have hpos := b.capacity_pos
  unfold RingBuffer.at_lag
  split
  · rename_i hbeyond
    rw [List.getElem?_eq_none, Option.getD_none]
    rw [List.length_take]
    omega
  · rename_i hwithin
    have hlag : k < b.size := not_le.mp hwithin
    have hplace : (b.head + b.data.length - 1 - k) % b.data.length =
        (past.length - 1 - k) % b.capacity := by
      have hturn : b.head + b.data.length - 1 - k = past.length % b.capacity + (b.capacity - 1 - k) := by
        rw [hhead, RingBuffer.capacity]
        have hcap : k < b.capacity := by omega
        simp only [RingBuffer.capacity] at hcap
        omega
      rw [hturn, ← RingBuffer.capacity, Nat.mod_add_mod,
        show past.length + (b.capacity - 1 - k) = past.length - 1 - k + b.capacity by omega,
        Nat.add_mod_right]
    rw [hplace, List.getD_eq_getElem?_getD, hkept k hlag,
      List.getElem?_take_of_lt (by omega)]

/-- The values from the newest on are the window. -/
theorem RingBuffer.Holds.window (hholds : b.Holds past) :
    (List.range b.size).map b.at_lag = past.take b.capacity := by
  refine List.ext_getElem? fun k => ?_
  rw [hholds.size_eq_length]
  by_cases hk : k < (past.take b.capacity).length
  · rw [List.getElem?_map, List.getElem?_range hk, Option.map_some, hholds.at_lag,
      List.getElem?_eq_getElem hk, Option.getD_some]
  · rw [List.getElem?_eq_none (by simpa using not_lt.mp hk), List.getElem?_eq_none (not_lt.mp hk)]

end Push

/-- After any stream of pushes the value `k` steps back is the `k`-th most recent
one the buffer retains. -/
theorem RingBuffer.at_lag_stream {capacity : Nat} (hpos : 0 < capacity) (xs : List K) (k : Nat) :
    (xs.foldl (fun b x => (b.push x).2) (RingBuffer.new capacity hpos)).at_lag k =
      ((Series.recent capacity xs)[k]?).getD 0 := by
  obtain ⟨hholds, hcap⟩ := Series.foldl_tracks
    (P := fun (b : RingBuffer K) past => b.Holds past ∧ b.capacity = capacity) (f := fun b x => (b.push x).2)
    ⟨RingBuffer.new_holds hpos, RingBuffer.new_capacity hpos⟩
    (fun b past x ⟨hb, hcap⟩ => ⟨hb.push x, (b.push_capacity x).trans hcap⟩) xs
  rw [hholds.at_lag, hcap, Series.recent]

end ptl.features

namespace ptl.features

variable {K : Type*} [Field K]

/-- Sum of a quantity over the values of a buffer, from the newest on. -/
def RingBuffer.sumOver (b : RingBuffer K) (f : K → K) : K :=
  (List.range b.size).foldl (fun s i => s + f (b.at_lag i)) 0

theorem foldl_add_eq_sum {A : Type*} (f : A → K) (l : List A) (s : K) :
    l.foldl (fun s a => s + f a) s = s + (l.map f).sum := by
  induction l generalizing s with
  | nil => simp
  | cons a l ih => rw [List.foldl_cons, ih, List.map_cons, List.sum_cons, add_assoc]

theorem RingBuffer.Holds.sumOver {b : RingBuffer K} {past : List K} (hholds : b.Holds past) (f : K → K) :
    b.sumOver f = ((past.take b.capacity).map f).sum := by
  rw [RingBuffer.sumOver, foldl_add_eq_sum, zero_add, ← hholds.window, List.map_map]
  rfl

theorem max_one_pos (window : Nat) : 0 < max 1 window := Nat.zero_lt_one.trans_le (Nat.le_max_left _ _)

theorem max_two_pos (window : Nat) : 0 < max 2 window := Nat.zero_lt_two.trans_le (Nat.le_max_left _ _)

/-! ### Mean -/

structure RollingMean (K : Type*) where
  buf : RingBuffer K
  window : Nat
  sum : K
  since_recompute : Nat := 0

def RollingMean.new (window : Nat) : RollingMean K where
  buf := RingBuffer.new (max 1 window) (max_one_pos window)
  window := max 1 window
  sum := 0

def RollingMean.recompute (m : RollingMean K) : RollingMean K :=
  { m with sum := m.buf.sumOver id, since_recompute := 0 }

def RollingMean.update (m : RollingMean K) (x : K) : RollingMean K :=
  let (evicted, buf) := m.buf.push x
  let m := { m with buf, sum := m.sum + (x - evicted), since_recompute := m.since_recompute + 1 }
  if m.window ≤ m.since_recompute then m.recompute else m

def RollingMean.value (m : RollingMean K) : K := if m.buf.size = 0 then 0 else m.sum / m.buf.size

def RollingMean.ready (m : RollingMean K) : Bool := m.buf.full

/-- The sum is that of the window, however it was arrived at. -/
structure RollingMean.Tracks (m : RollingMean K) (past : List K) : Prop where
  holds : m.buf.Holds past
  sum_eq : m.sum = (past.take m.buf.capacity).sum

theorem RollingMean.Tracks.update {m : RollingMean K} {past : List K} (htracks : m.Tracks past) (x : K) :
    (m.update x).Tracks (x :: past) ∧ (m.update x).buf.capacity = m.buf.capacity := by
  have hpushed := htracks.holds.push x
  have hsum := sum_take_cons id x past m.buf.capacity_pos
  simp only [List.map_id, id_eq] at hsum
  have hadded : m.sum + (x - (m.buf.push x).1) = ((x :: past).take m.buf.capacity).sum := by
    rw [htracks.sum_eq, htracks.holds.evicted, hsum]
    cases past[m.buf.capacity - 1]? with
    | none => simp
    | some e =>
      simp only [Option.getD_some, Option.elim_some, id_eq]
      ring
  unfold RollingMean.update
  dsimp only
  split
  · refine ⟨⟨hpushed, ?_⟩, RingBuffer.push_capacity _ _⟩
    simp only [RollingMean.recompute]
    rw [hpushed.sumOver, List.map_id, RingBuffer.push_capacity]
  · refine ⟨⟨hpushed, ?_⟩, RingBuffer.push_capacity _ _⟩
    rw [RingBuffer.push_capacity]
    exact hadded

theorem RollingMean.new_tracks (window : Nat) :
    (RollingMean.new window : RollingMean K).Tracks [] := by
  refine ⟨RingBuffer.new_holds (max_one_pos window), ?_⟩
  rw [List.take_nil]
  rfl

theorem RollingMean.Tracks.value_eq {m : RollingMean K} {past : List K} (htracks : m.Tracks past) :
    m.value = mean (past.take m.buf.capacity) := by
  unfold RollingMean.value mean
  rw [htracks.sum_eq, htracks.holds.size_eq_length]
  split
  · rename_i hnone
    rw [hnone, Nat.cast_zero, div_zero]
  · rfl

theorem RollingMean.stream_tracks (window : Nat) (xs : List K) :
    (xs.foldl RollingMean.update (RollingMean.new window)).Tracks xs.reverse ∧
      (xs.foldl RollingMean.update (RollingMean.new window)).buf.capacity = max 1 window :=
  foldl_tracks (P := fun (m : RollingMean K) past => m.Tracks past ∧ m.buf.capacity = max 1 window)
    ⟨RollingMean.new_tracks window, RingBuffer.new_capacity (max_one_pos window)⟩
    (fun _ _ x ⟨hm, hcap⟩ => ⟨(hm.update x).1, (hm.update x).2.trans hcap⟩) xs

/-- After any stream the value is the mean of the window. -/
theorem RollingMean.value_stream (window : Nat) (xs : List K) :
    (xs.foldl RollingMean.update (RollingMean.new window)).value = mean (recent (max 1 window) xs) := by
  obtain ⟨htracks, hcap⟩ := RollingMean.stream_tracks window xs
  rw [htracks.value_eq, hcap, recent]

/-- A mean is ready after as many values as its window. -/
theorem RollingMean.ready_stream (window : Nat) (xs : List K) :
    (xs.foldl RollingMean.update (RollingMean.new window)).ready = true ↔ max 1 window ≤ xs.length := by
  obtain ⟨htracks, hcap⟩ := RollingMean.stream_tracks window xs
  rw [RollingMean.ready, htracks.holds.full_iff, hcap, List.length_reverse]

/-! ### Standard deviation -/

structure RollingStdev (K : Type*) where
  buf : RingBuffer K
  window : Nat
  sum : K
  sumsq : K
  ref : K
  have_ref : Bool := false
  evicting : Bool := false
  since_recompute : Nat := 0

def RollingStdev.new (window : Nat) : RollingStdev K where
  buf := RingBuffer.new (max 2 window) (max_two_pos window)
  window := max 2 window
  sum := 0
  sumsq := 0
  ref := 0

/-- The mean of the buffer becomes the reference. -/
def RollingStdev.recompute (s : RollingStdev K) : RollingStdev K :=
  if s.buf.size = 0 then { s with since_recompute := 0 }
  else
    let ref := s.buf.sumOver id / s.buf.size
    { s with
      ref
      sum := s.buf.sumOver fun x => x - ref
      sumsq := s.buf.sumOver fun x => (x - ref) * (x - ref)
      since_recompute := 0 }

/-- An update up to the periodic recomputation. -/
def RollingStdev.accumulate (s : RollingStdev K) (x : K) : RollingStdev K :=
  let ref := if s.have_ref then s.ref else x
  let shifted := x - ref
  let (evicted, buf) := s.buf.push x
  let evicted_shift := evicted - ref
  -- While the ring is filling, the evicted value is a placeholder.
  let sum := if s.evicting then s.sum - evicted_shift else s.sum
  let sumsq := if s.evicting then s.sumsq - evicted_shift * evicted_shift else s.sumsq
  { s with
    buf, ref
    have_ref := true
    sum := sum + shifted
    sumsq := sumsq + shifted * shifted
    evicting := s.evicting || buf.full
    since_recompute := s.since_recompute + 1 }

def RollingStdev.update (s : RollingStdev K) (x : K) : RollingStdev K :=
  let s := s.accumulate x
  if s.window ≤ s.since_recompute then s.recompute else s

def RollingStdev.variance [LinearOrder K] (s : RollingStdev K) : K :=
  if s.buf.size < 2 then 0
  else max 0 (s.sumsq - s.sum * s.sum / s.buf.size) / (s.buf.size - 1)

def RollingStdev.mean (s : RollingStdev K) : K :=
  if s.buf.size = 0 then 0 else s.ref + s.sum / s.buf.size

def RollingStdev.ready (s : RollingStdev K) : Bool := s.buf.full

/-- The two sums are those of the window's deviations from the reference. The
reference is anywhere, and is set once there is a value. -/
structure RollingStdev.Tracks (s : RollingStdev K) (past : List K) : Prop where
  holds : s.buf.Holds past
  evicting_eq : s.evicting = s.buf.full
  unset : s.have_ref = false → past = []
  sum_eq : s.sum = ((past.take s.buf.capacity).map fun x => x - s.ref).sum
  sumsq_eq : s.sumsq = ((past.take s.buf.capacity).map fun x => (x - s.ref) * (x - s.ref)).sum

theorem RollingStdev.recompute_buf (s : RollingStdev K) : s.recompute.buf = s.buf := by
  unfold RollingStdev.recompute
  split <;> rfl

theorem RollingStdev.recompute_tracks {s : RollingStdev K} {past : List K} (htracks : s.Tracks past) :
    s.recompute.Tracks past := by
  unfold RollingStdev.recompute
  split
  · exact ⟨htracks.holds, htracks.evicting_eq, htracks.unset, htracks.sum_eq, htracks.sumsq_eq⟩
  · refine ⟨htracks.holds, htracks.evicting_eq, htracks.unset, ?_, ?_⟩
    · exact htracks.holds.sumOver fun x => x - s.buf.sumOver id / s.buf.size
    · exact htracks.holds.sumOver fun x =>
        (x - s.buf.sumOver id / s.buf.size) * (x - s.buf.sumOver id / s.buf.size)

/-- A sum over the window after a push: the evicted term is taken off only
where the ring was full. -/
theorem RingBuffer.Holds.sum_push {b : RingBuffer K} {past : List K} (hholds : b.Holds past) (f : K → K) (x : K) :
    (((x :: past).take b.capacity).map f).sum =
      (if b.full then ((past.take b.capacity).map f).sum - f (b.push x).1
        else ((past.take b.capacity).map f).sum) + f x := by
  rw [sum_take_cons f x past b.capacity_pos, hholds.evicted]
  split
  · rename_i hfull
    have hlast : b.capacity - 1 < past.length := by
      have hlong := hholds.full_iff.mp hfull
      have hpos := b.capacity_pos
      omega
    rw [List.getElem?_eq_getElem hlast, Option.elim_some, Option.getD_some]
    ring
  · rename_i hfilling
    have hshort : past.length ≤ b.capacity - 1 := by
      have hlt : ¬ b.capacity ≤ past.length := fun hlong => hfilling (hholds.full_iff.mpr hlong)
      omega
    rw [List.getElem?_eq_none hshort, Option.elim_none, sub_zero]

theorem RollingStdev.Tracks.accumulate {s : RollingStdev K} {past : List K} (htracks : s.Tracks past)
    (x : K) : (s.accumulate x).Tracks (x :: past) := by
  obtain ⟨hholds, hevicting, hunset, hsum, hsumsq⟩ := htracks
  have hpushed := hholds.push x
  -- Before the first value the window is empty, so the reference may be moved.
  have hmoved : ∀ f : K → K → K, ((past.take s.buf.capacity).map (f s.ref)).sum =
      ((past.take s.buf.capacity).map (f (if s.have_ref then s.ref else x))).sum := by
    intro f
    split
    · rfl
    · rename_i hnone
      rw [hunset (by simpa using hnone), List.take_nil]
      rfl
  have hlast : (s.evicting || (s.buf.push x).2.full) = (s.buf.push x).2.full := by
    rw [hevicting]
    cases hfull : s.buf.full with
    | false => rw [Bool.false_or]
    | true =>
      rw [Bool.true_or, eq_comm, hpushed.full_iff, RingBuffer.push_capacity, List.length_cons]
      exact Nat.le_succ_of_le (hholds.full_iff.mp hfull)
  refine ⟨hpushed, hlast, fun hfalse => (by cases hfalse), ?_, ?_⟩
  · simp only [RollingStdev.accumulate, RingBuffer.push_capacity]
    rw [hholds.sum_push, hsum, hmoved fun r y => y - r, hevicting]
  · simp only [RollingStdev.accumulate, RingBuffer.push_capacity]
    rw [hholds.sum_push, hsumsq, hmoved fun r y => (y - r) * (y - r), hevicting]

theorem RollingStdev.Tracks.update {s : RollingStdev K} {past : List K} (htracks : s.Tracks past) (x : K) :
    (s.update x).Tracks (x :: past) ∧ (s.update x).buf.capacity = s.buf.capacity := by
  have hpushed : (s.accumulate x).buf.capacity = s.buf.capacity := RingBuffer.push_capacity s.buf x
  unfold RollingStdev.update
  dsimp only
  split
  · refine ⟨RollingStdev.recompute_tracks (htracks.accumulate x), ?_⟩
    rw [RollingStdev.recompute_buf, hpushed]
  · exact ⟨htracks.accumulate x, hpushed⟩

theorem RollingStdev.stream_tracks (window : Nat) (xs : List K) :
    (xs.foldl RollingStdev.update (RollingStdev.new window)).Tracks xs.reverse ∧
      (xs.foldl RollingStdev.update (RollingStdev.new window)).buf.capacity = max 2 window := by
  have hpos := max_two_pos window
  refine foldl_tracks (P := fun (s : RollingStdev K) past => s.Tracks past ∧ s.buf.capacity = max 2 window)
    ⟨⟨RingBuffer.new_holds hpos, rfl, fun _ => rfl, ?_, ?_⟩, RingBuffer.new_capacity hpos⟩
    (fun s past x ⟨hs, hcap⟩ => ⟨(hs.update x).1, (hs.update x).2.trans hcap⟩) xs
  · rw [List.take_nil]
    rfl
  · rw [List.take_nil]
    rfl

section Values

variable [LinearOrder K] [IsStrictOrderedRing K] {s : RollingStdev K} {past : List K}

theorem RollingStdev.Tracks.variance_eq (htracks : s.Tracks past) :
    s.variance = sampleCovariance id id (past.take s.buf.capacity) := by
  unfold RollingStdev.variance sampleCovariance
  rw [htracks.sum_eq, htracks.sumsq_eq, htracks.holds.size_eq_length]
  split
  · rename_i hshort
    rw [comoment_short _ _ hshort, zero_div]
  · have hshift := comoment_shift id id s.ref s.ref (past.take s.buf.capacity)
    simp only [id_eq] at hshift
    rw [hshift, max_eq_right (comoment_self_nonneg _ _)]

theorem RollingStdev.Tracks.mean_eq (htracks : s.Tracks past) :
    s.mean = Series.mean (past.take s.buf.capacity) := by
  unfold RollingStdev.mean
  rw [htracks.sum_eq, htracks.holds.size_eq_length]
  split
  · rename_i hnone
    rw [List.length_eq_zero_iff.mp hnone]
    simp [Series.mean]
  · rename_i hsome
    exact mean_shift s.ref fun hnil => hsome (by rw [hnil]; rfl)

/-- After any stream the mean and the variance are those of the window. -/
theorem RollingStdev.value_stream (window : Nat) (xs : List K) :
    (xs.foldl RollingStdev.update (RollingStdev.new window)).mean =
        Series.mean (recent (max 2 window) xs) ∧
      (xs.foldl RollingStdev.update (RollingStdev.new window)).variance =
        sampleCovariance id id (recent (max 2 window) xs) := by
  obtain ⟨htracks, hcap⟩ := RollingStdev.stream_tracks window xs
  rw [htracks.mean_eq, htracks.variance_eq, hcap, recent]
  exact ⟨rfl, rfl⟩

end Values

/-! ### Extrema -/

/-- Two monotonic deques, the front first, of values with the number of the
update that brought them. -/
structure RollingExtrema (K : Type*) where
  window : Nat
  index : Nat := 0
  count : Nat := 0
  min_ : List (Nat × K) := []
  max_ : List (Nat × K) := []

def RollingExtrema.new (window : Nat) : RollingExtrema K := { window := max 1 window }

section Extrema

variable [LinearOrder K]

def RollingExtrema.update (e : RollingExtrema K) (x : K) : RollingExtrema K :=
  let index := e.index + 1
  let cutoff := if e.window ≤ index then index - e.window else 0
  { e with
    index
    min_ := SlidingDeque.slide (fun x y => decide (x ≤ y)) index cutoff x e.min_
    max_ := SlidingDeque.slide (fun x y => decide (y ≤ x)) index cutoff x e.max_
    count := if e.count < e.window then e.count + 1 else e.count }

def RollingExtrema.min (e : RollingExtrema K) : K := e.min_.head?.elim 0 Prod.snd

def RollingExtrema.max (e : RollingExtrema K) : K := e.max_.head?.elim 0 Prod.snd

def RollingExtrema.ready (e : RollingExtrema K) : Bool := decide (e.window ≤ e.count)

structure RollingExtrema.Tracks (e : RollingExtrema K) (window : Nat) (past : List K) : Prop where
  window_eq : e.window = window
  index_eq : e.index = past.length
  minima : SlidingDeque.Valid (fun x y => decide (x ≤ y)) window past e.min_
  maxima : SlidingDeque.Valid (fun x y => decide (y ≤ x)) window past e.max_

omit [Field K] in
theorem RollingExtrema.Tracks.update {e : RollingExtrema K} {window : Nat} {past : List K}
    (htracks : e.Tracks window past) (hwindow : 0 < window) (x : K) :
    (e.update x).Tracks window (x :: past) := by
  obtain ⟨rfl, hindex, hminima, hmaxima⟩ := htracks
  have hcutoff : (if e.window ≤ past.length + 1 then past.length + 1 - e.window else 0) =
      past.length + 1 - e.window := by
    split
    · rfl
    · omega
  have hmin := hminima.slide (fun x y => by simpa using le_total x y)
    (fun x y z hxy hyz => decide_eq_true ((of_decide_eq_true hxy).trans (of_decide_eq_true hyz))) hwindow x
  have hmax := hmaxima.slide (fun x y => by simpa using le_total y x)
    (fun x y z hxy hyz => decide_eq_true ((of_decide_eq_true hyz).trans (of_decide_eq_true hxy))) hwindow x
  refine ⟨rfl, ?_, ?_, ?_⟩
  · simp only [RollingExtrema.update, hindex, List.length_cons]
  · simp only [RollingExtrema.update, hindex, hcutoff]
    exact hmin
  · simp only [RollingExtrema.update, hindex, hcutoff]
    exact hmax

/-- After any stream the extrema are those of the window; zero before the
first value. -/
theorem RollingExtrema.value_stream (window : Nat) (xs : List K) :
    (xs.foldl RollingExtrema.update (RollingExtrema.new window)).min =
        (recent (Nat.max 1 window) xs).min?.getD 0 ∧
      (xs.foldl RollingExtrema.update (RollingExtrema.new window)).max =
        (recent (Nat.max 1 window) xs).max?.getD 0 := by
  have hwindow := max_one_pos window
  have htracks := foldl_tracks (P := fun (e : RollingExtrema K) past => e.Tracks (Nat.max 1 window) past)
    (s := RollingExtrema.new window) (f := RollingExtrema.update)
    ⟨rfl, rfl, SlidingDeque.valid_nil _ _, SlidingDeque.valid_nil _ _⟩
    (fun e past x he => he.update hwindow x) xs
  rcases eq_or_ne xs [] with rfl | hne
  · constructor
    · simp [RollingExtrema.min, RollingExtrema.new, recent]
    · simp [RollingExtrema.max, RollingExtrema.new, recent]
  have hpast : xs.reverse ≠ [] := fun hnil => hne (List.reverse_eq_nil_iff.mp hnil)
  obtain ⟨e, he, hmem, hleast⟩ := htracks.minima.front (fun x y => by simpa using le_total x y)
    (fun x y z hxy hyz => decide_eq_true ((of_decide_eq_true hxy).trans (of_decide_eq_true hyz))) hwindow hpast
  obtain ⟨f, hf, hmem', hmost⟩ := htracks.maxima.front (fun x y => by simpa using le_total y x)
    (fun x y z hxy hyz => decide_eq_true ((of_decide_eq_true hyz).trans (of_decide_eq_true hxy))) hwindow hpast
  constructor
  · rw [RollingExtrema.min, he, Option.elim_some, recent,
      List.min?_eq_some_iff.mpr ⟨hmem, fun y hy => of_decide_eq_true (hleast y hy)⟩, Option.getD_some]
  · rw [RollingExtrema.max, hf, Option.elim_some, recent,
      List.max?_eq_some_iff.mpr ⟨hmem', fun y hy => of_decide_eq_true (hmost y hy)⟩, Option.getD_some]

end Extrema

end ptl.features
