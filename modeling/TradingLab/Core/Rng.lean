import Mathlib.Data.Finite.Prod
import Mathlib.Data.Fintype.EquivFin
import Mathlib.Tactic.Ring
import TradingLab.Words

namespace ptl

/-! ### The engine -/

def kGamma : UInt64 := 0x9E3779B97F4A7C15

/-- The mixing of a counter that was advanced. -/
def mix64 (z : UInt64) : UInt64 :=
  let z := (z ^^^ (z >>> 30)) * 0xBF58476D1CE4E5B9
  let z := (z ^^^ (z >>> 27)) * 0x94D049BB133111EB
  z ^^^ (z >>> 31)

/-- A value, and the counter as it is left. -/
def splitmix64 (x : UInt64) : UInt64 × UInt64 := (mix64 (x + kGamma), x + kGamma)

def rotl (x k : UInt64) : UInt64 := (x <<< k) ||| (x >>> (64 - k))

/-- The four words of xoshiro256**. -/
structure RngState where
  s0 : UInt64
  s1 : UInt64
  s2 : UInt64
  s3 : UInt64
  deriving DecidableEq, Repr

/-- The all-zero state, in which every draw is zero and leads back to it. -/
def RngState.zero : RngState := ⟨0, 0, 0, 0⟩

/-- A generator with the seed it came from. -/
structure DeterministicRng where
  s : RngState
  seed : UInt64
  deriving DecidableEq, Repr

def DeterministicRng.create (seed : UInt64) : DeterministicRng :=
  let (s0, x) := splitmix64 seed
  let (s1, x) := splitmix64 x
  let (s2, x) := splitmix64 x
  let (s3, _) := splitmix64 x
  { s := { s0, s1, s2, s3 }, seed }

def RngState.next_u64 (s : RngState) : UInt64 × RngState :=
  let result := rotl (s.s1 * 5) 7 * 9
  let t := s.s1 <<< 17
  let s2 := s.s2 ^^^ s.s0
  let s3 := s.s3 ^^^ s.s1
  let s1 := s.s1 ^^^ s2
  let s0 := s.s0 ^^^ s3
  (result, { s0, s1, s2 := s2 ^^^ t, s3 := rotl s3 45 })

def DeterministicRng.next_u64 (rng : DeterministicRng) : UInt64 × DeterministicRng :=
  (rng.s.next_u64.1, { rng with s := rng.s.next_u64.2 })

/-- What is left after k draws. -/
def DeterministicRng.drawn : Nat → DeterministicRng → DeterministicRng
  | 0, rng => rng
  | k + 1, rng => DeterministicRng.drawn k rng.next_u64.2

/-- From the root seed, whatever was drawn. -/
def DeterministicRng.fork (rng : DeterministicRng) (stream_id : UInt64) : DeterministicRng :=
  .create (splitmix64 (rng.seed ^^^ stream_id * kGamma)).1

/-! ### Bounded draws -/

/-- The high and the low word, where the compiler has 128 bits. -/
def mul64x64_hi (a b : UInt64) : UInt64 × UInt64 :=
  let prod := a.toBitVec.setWidth 128 * b.toBitVec.setWidth 128
  (.ofBitVec ((prod >>> 64).setWidth 64), .ofBitVec (prod.setWidth 64))

/-- The same where it has not. -/
def mul64x64_hi_portable (a b : UInt64) : UInt64 × UInt64 :=
  let a_lo := a &&& 0xFFFFFFFF
  let a_hi := a >>> 32
  let b_lo := b &&& 0xFFFFFFFF
  let b_hi := b >>> 32
  let p0 := a_lo * b_lo
  let p1 := a_lo * b_hi
  let p2 := a_hi * b_lo
  let p3 := a_hi * b_hi
  let carry := ((p0 >>> 32) + (p1 &&& 0xFFFFFFFF) + (p2 &&& 0xFFFFFFFF)) >>> 32
  (p3 + (p1 >>> 32) + (p2 >>> 32) + carry, p0 + (p1 <<< 32) + (p2 <<< 32))

/-- The loop on rejected draws, over the outputs still to come. Without one it does not
return. -/
def redraw (n threshold : UInt64) : UInt64 × UInt64 → List UInt64 → Option (UInt64 × List UInt64)
  | (hi, low), outputs =>
    if low < threshold then
      match outputs with
      | [] => none
      | x :: outputs => redraw n threshold (mul64x64_hi x n) outputs
    else some (hi, outputs)

/-- An integer below n, with the outputs that were not drawn. -/
def bounded (n : UInt64) (outputs : List UInt64) : Option (UInt64 × List UInt64) :=
  if n = 0 then some (0, outputs)
  else
    match outputs with
    | [] => none
    | x :: outputs =>
      let (hi, low) := mul64x64_hi x n
      if low < n then redraw n ((~~~n + 1) % n) (hi, low) outputs else some (hi, outputs)

/-! ### Maps that lose nothing -/

theorem xor_shiftRight_injective {k : UInt64} (hk : 0 < k.toNat % 64) :
    Function.Injective fun x : UInt64 => x ^^^ (x >>> k) := by
  intro x y heq
  have hwords := congrArg UInt64.toBitVec heq
  simp only [UInt64.toBitVec_xor, UInt64.toBitVec_shiftRight, BitVec.ushiftRight_eq'] at hwords
  refine UInt64.toBitVec_inj.mp (Words.xor_ushiftRight_injective ?_ hwords)
  simpa using hk

theorem mul_injective {c d : UInt64} (hunit : c * d = 1) : Function.Injective fun x : UInt64 => x * c := by
  intro x y heq
  exact UInt64.toBitVec_inj.mp
    (Words.mul_injective (congrArg UInt64.toBitVec hunit) (congrArg UInt64.toBitVec heq))

theorem mix64_injective : Function.Injective mix64 := by
  have hfirst : (0xBF58476D1CE4E5B9 : UInt64) * 0x96DE1B173F119089 = 1 := by decide
  have hsecond : (0x94D049BB133111EB : UInt64) * 0x319642B2D24D8EC3 = 1 := by decide
  exact ((xor_shiftRight_injective (by decide)).comp (mul_injective hsecond)).comp
    ((xor_shiftRight_injective (by decide)).comp
      ((mul_injective hfirst).comp (xor_shiftRight_injective (by decide))))

theorem mix64_zero : mix64 0 = 0 := by decide

theorem rotl_injective {k : UInt64} (hpos : 0 < k.toNat) (hk : k.toNat < 64) :
    Function.Injective fun x => rotl x k := by
  have hplace : k.toBitVec.toNat % 64 = k.toNat := Nat.mod_eq_of_lt hk
  have hrest : (64 - k).toBitVec.toNat % 64 = 64 - k.toNat := by
    have hsub : (64 - k).toNat = 64 - k.toNat := UInt64.toNat_sub_of_le _ _ hk.le
    rw [UInt64.toNat_toBitVec, hsub]
    exact Nat.mod_eq_of_lt (by omega)
  intro x y heq
  have hwords := congrArg UInt64.toBitVec heq
  simp only [rotl, UInt64.toBitVec_or, UInt64.toBitVec_shiftLeft, UInt64.toBitVec_shiftRight,
    BitVec.shiftLeft_eq', BitVec.ushiftRight_eq', BitVec.toNat_umod] at hwords
  rw [show (64 : BitVec 64).toNat = 64 from rfl, hplace, hrest] at hwords
  exact UInt64.toBitVec_inj.mp (Words.rotate_injective hk hwords)

theorem xor_shiftLeft_injective {k : UInt64} (hk : 0 < k.toNat % 64) :
    Function.Injective fun x : UInt64 => x ^^^ (x <<< k) := by
  intro x y heq
  have hwords := congrArg UInt64.toBitVec heq
  simp only [UInt64.toBitVec_xor, UInt64.toBitVec_shiftLeft, BitVec.shiftLeft_eq'] at hwords
  refine UInt64.toBitVec_inj.mp (Words.xor_shiftLeft_injective ?_ hwords)
  simpa using hk

/-! ### Streams -/

instance RngState.finite : Finite RngState :=
  have hwords : Function.Injective UInt64.toBitVec := fun _ _ heq => UInt64.toBitVec_inj.mp heq
  have : Finite UInt64 := .of_injective (fun x => x.toBitVec.toFin) fun _ _ heq =>
    hwords (BitVec.eq_of_toFin_eq heq)
  .of_injective (fun s => (s.s0, s.s1, s.s2, s.s3)) fun s s' heq => by
    cases s
    cases s'
    simpa using heq

theorem xor_cancel_middle (x y z : UInt64) : x ^^^ y ^^^ (y ^^^ z) = x ^^^ z := by
  rw [UInt64.xor_assoc, ← UInt64.xor_assoc y, UInt64.xor_self, UInt64.zero_xor]

/-- The words of a state are found one after the other from those of the next. -/
theorem RngState.next_u64_injective : Function.Injective fun s : RngState => s.next_u64.2 := by
  rintro ⟨a0, a1, a2, a3⟩ ⟨b0, b1, b2, b3⟩ heq
  simp only [RngState.next_u64, RngState.mk.injEq] at heq
  obtain ⟨h0, h1, h2, h3⟩ := heq
  have hlast : a3 ^^^ a1 = b3 ^^^ b1 := rotl_injective (by decide) (by decide) h3
  obtain rfl : a0 = b0 := by
    rw [hlast] at h0
    exact (UInt64.xor_left_inj _).mp h0
  obtain rfl : a1 = b1 := by
    refine xor_shiftLeft_injective (k := 17) (by decide) ?_
    calc a1 ^^^ (a1 <<< 17) = a1 ^^^ (a2 ^^^ a0) ^^^ (a2 ^^^ a0 ^^^ (a1 <<< 17)) :=
          (xor_cancel_middle _ _ _).symm
      _ = b1 ^^^ (b2 ^^^ a0) ^^^ (b2 ^^^ a0 ^^^ (b1 <<< 17)) := by rw [h1, h2]
      _ = b1 ^^^ (b1 <<< 17) := xor_cancel_middle _ _ _
  obtain rfl : a3 = b3 := (UInt64.xor_left_inj _).mp hlast
  obtain rfl : a2 = b2 := (UInt64.xor_left_inj _).mp ((UInt64.xor_right_inj _).mp h1)
  rfl

theorem RngState.next_u64_bijective : Function.Bijective fun s : RngState => s.next_u64.2 :=
  Finite.injective_iff_bijective.mp RngState.next_u64_injective

theorem RngState.next_u64_zero : RngState.zero.next_u64 = (0, .zero) := by decide

theorem RngState.next_u64_ne_zero {s : RngState} (hne : s ≠ .zero) : s.next_u64.2 ≠ .zero := by
  intro hzero
  exact hne (RngState.next_u64_injective (hzero.trans (congrArg Prod.snd RngState.next_u64_zero).symm))

theorem DeterministicRng.drawn_ne_zero {rng : DeterministicRng} (hne : rng.s ≠ .zero) (k : Nat) :
    (rng.drawn k).s ≠ .zero := by
  induction k generalizing rng with
  | zero => exact hne
  | succ k ih => exact @ih rng.next_u64.2 (RngState.next_u64_ne_zero hne)

/-- Two counters in a row do not both mix to zero. -/
theorem DeterministicRng.create_ne_zero (seed : UInt64) : (DeterministicRng.create seed).s ≠ .zero := by
  intro hzero
  have hwords := RngState.mk.inj hzero
  have hfirst : mix64 (seed + kGamma) = mix64 0 := hwords.1.trans mix64_zero.symm
  have hsecond : mix64 (seed + kGamma + kGamma) = mix64 0 := hwords.2.1.trans mix64_zero.symm
  have hgamma : kGamma = 0 := by
    calc kGamma = 0 + kGamma := (UInt64.zero_add _).symm
      _ = seed + kGamma + kGamma := by rw [mix64_injective hfirst]
      _ = 0 := mix64_injective hsecond
  exact absurd hgamma (by decide)

theorem DeterministicRng.fork_injective (rng : DeterministicRng) :
    Function.Injective fun stream_id => (rng.fork stream_id).seed := by
  have hgamma : kGamma * 0xF1DE83E19937733D = 1 := by decide
  intro id id' heq
  have hmixed : (rng.seed ^^^ id * kGamma) + kGamma = (rng.seed ^^^ id' * kGamma) + kGamma := mix64_injective heq
  have hseeds := (UInt64.add_left_inj _).mp hmixed
  exact mul_injective hgamma ((UInt64.xor_right_inj _).mp hseeds)

/-- No seed leads into the all-zero state, a state can be told from the next, and the streams
of a seed have seeds of their own. -/
theorem DeterministicRng.streams_sound :
    (∀ (seed : UInt64) (k : Nat), ((DeterministicRng.create seed).drawn k).s ≠ .zero) ∧
      (Function.Bijective fun s : RngState => s.next_u64.2) ∧
      ∀ rng : DeterministicRng, Function.Injective fun stream_id => (rng.fork stream_id).seed :=
  ⟨fun seed => DeterministicRng.drawn_ne_zero (DeterministicRng.create_ne_zero seed), RngState.next_u64_bijective,
    DeterministicRng.fork_injective⟩

/-! ### Products of two words -/

theorem mul64x64_hi_exact (a b : UInt64) : (mul64x64_hi a b).1.toNat = a.toNat * b.toNat / 2 ^ 64 ∧
    (mul64x64_hi a b).2.toNat = a.toNat * b.toNat % 2 ^ 64 := by
  have ha := a.toNat_lt
  have hb := b.toNat_lt
  have hproduct : a.toNat * b.toNat < 2 ^ 128 := by
    calc a.toNat * b.toNat ≤ a.toNat * 2 ^ 64 := Nat.mul_le_mul_left _ hb.le
      _ < 2 ^ 64 * 2 ^ 64 := Nat.mul_lt_mul_of_pos_right ha (by decide)
      _ = 2 ^ 128 := by decide
  have hwide : (a.toBitVec.setWidth 128 * b.toBitVec.setWidth 128).toNat = a.toNat * b.toNat := by
    rw [BitVec.toNat_mul, BitVec.toNat_setWidth, BitVec.toNat_setWidth, UInt64.toNat_toBitVec, UInt64.toNat_toBitVec,
      Nat.mod_eq_of_lt (ha.trans (by decide)), Nat.mod_eq_of_lt (hb.trans (by decide)), Nat.mod_eq_of_lt hproduct]
  constructor
  · rw [mul64x64_hi, UInt64.toNat_ofBitVec, BitVec.toNat_setWidth, BitVec.toNat_ushiftRight, hwide,
      Nat.shiftRight_eq_div_pow]
    omega
  · rw [mul64x64_hi, UInt64.toNat_ofBitVec, BitVec.toNat_setWidth, hwide]

/-- Four products of limbs make the product. -/
theorem limbs_product (a b : Nat) : a * b = a % 2 ^ 32 * (b % 2 ^ 32) +
    2 ^ 32 * (a % 2 ^ 32 * (b / 2 ^ 32)) + 2 ^ 32 * (a / 2 ^ 32 * (b % 2 ^ 32)) +
    2 ^ 64 * (a / 2 ^ 32 * (b / 2 ^ 32)) := by
  have ha := Nat.mod_add_div a (2 ^ 32)
  have hb := Nat.mod_add_div b (2 ^ 32)
  calc a * b = (a % 2 ^ 32 + 2 ^ 32 * (a / 2 ^ 32)) * (b % 2 ^ 32 + 2 ^ 32 * (b / 2 ^ 32)) := by rw [ha, hb]
    _ = _ := by ring

theorem toNat_limb_product {x y : UInt64} (hx : x.toNat < 2 ^ 32) (hy : y.toNat < 2 ^ 32) :
    (x * y).toNat = x.toNat * y.toNat ∧ x.toNat * y.toNat ≤ (2 ^ 32 - 1) * (2 ^ 32 - 1) := by
  have hle : x.toNat * y.toNat ≤ (2 ^ 32 - 1) * (2 ^ 32 - 1) := Nat.mul_le_mul (by omega) (by omega)
  exact ⟨by rw [UInt64.toNat_mul, Nat.mod_eq_of_lt (hle.trans_lt (by decide))], hle⟩

theorem toNat_lo (x : UInt64) : (x &&& 0xFFFFFFFF).toNat = x.toNat % 2 ^ 32 := by
  rw [UInt64.toNat_and]
  exact Nat.and_two_pow_sub_one_eq_mod _ 32

theorem toNat_hi (x : UInt64) : (x >>> 32).toNat = x.toNat / 2 ^ 32 := by
  rw [UInt64.toNat_shiftRight, Nat.shiftRight_eq_div_pow]
  rfl

theorem toNat_up (x : UInt64) : (x <<< 32).toNat = x.toNat * 2 ^ 32 % 2 ^ 64 := by
  rw [UInt64.toNat_shiftLeft, Nat.shiftLeft_eq]
  rfl

theorem mul64x64_hi_portable_eq (a b : UInt64) : mul64x64_hi_portable a b = mul64x64_hi a b := by
  have hlimbs := limbs_product a.toNat b.toNat
  have hlo : ∀ x : UInt64, (x &&& 0xFFFFFFFF).toNat < 2 ^ 32 := fun x => by
    rw [toNat_lo]
    exact Nat.mod_lt _ (by decide)
  have hhi : ∀ x : UInt64, (x >>> 32).toNat < 2 ^ 32 := fun x => by
    have hx := x.toNat_lt
    rw [toNat_hi]
    omega
  obtain ⟨hp0, hle0⟩ := toNat_limb_product (hlo a) (hlo b)
  obtain ⟨hp1, hle1⟩ := toNat_limb_product (hlo a) (hhi b)
  obtain ⟨hp2, hle2⟩ := toNat_limb_product (hhi a) (hlo b)
  obtain ⟨hp3, hle3⟩ := toNat_limb_product (hhi a) (hhi b)
  rw [← toNat_lo a, ← toNat_lo b, ← toNat_hi a, ← toNat_hi b, ← hp0, ← hp1, ← hp2, ← hp3] at hlimbs
  rw [← hp0] at hle0
  rw [← hp1] at hle1
  rw [← hp2] at hle2
  rw [← hp3] at hle3
  obtain ⟨hhigh, hlow⟩ := mul64x64_hi_exact a b
  rw [hlimbs] at hhigh hlow
  refine Prod.ext (UInt64.toNat_inj.mp ?_) (UInt64.toNat_inj.mp ?_)
  · rw [hhigh]
    simp only [mul64x64_hi_portable, UInt64.toNat_add, toNat_hi, toNat_lo]
    omega
  · rw [hlow]
    simp only [mul64x64_hi_portable, UInt64.toNat_add, toNat_up]
    omega

/-! ### Draws below a bound -/

theorem toNat_threshold {n : UInt64} (hn : n ≠ 0) : ((~~~n + 1) % n).toNat = 2 ^ 64 % n.toNat := by
  have hpos : 0 < n.toNat := UInt64.pos_iff_ne_zero.mpr hn
  have hlt := n.toNat_lt
  have hneg : (~~~n + 1).toNat = 2 ^ 64 - n.toNat := by
    have hnot : (~~~n).toNat = 2 ^ 64 - 1 - n.toNat := UInt64.toNat_not n
    rw [UInt64.toNat_add, hnot, UInt64.toNat_one]
    omega
  rw [UInt64.toNat_mod, hneg, ← Nat.mod_eq_sub_mod hlt.le]

theorem high_lt {n : UInt64} (hn : n ≠ 0) (x : UInt64) : (mul64x64_hi x n).1 < n := by
  have hpos : 0 < n.toNat := UInt64.pos_iff_ne_zero.mpr hn
  rw [UInt64.lt_iff_toNat_lt, (mul64x64_hi_exact x n).1]
  exact Nat.div_lt_of_lt_mul (Nat.mul_lt_mul_of_pos_right x.toNat_lt hpos)

theorem redraw_lt {n threshold : UInt64} (hn : n ≠ 0) {product : UInt64 × UInt64} {outputs rest : List UInt64}
    {v : UInt64} (hproduct : product.1 < n) (hreturns : redraw n threshold product outputs = some (v, rest)) :
    v < n := by
  induction outputs generalizing product with
  | nil =>
    rw [redraw] at hreturns
    split at hreturns
    · cases hreturns
    · cases hreturns
      exact hproduct
  | cons x outputs ih =>
    rw [redraw] at hreturns
    split at hreturns
    · exact ih (high_lt hn x) hreturns
    · cases hreturns
      exact hproduct

theorem bounded_lt {n v : UInt64} {outputs rest : List UInt64} (hn : n ≠ 0)
    (hreturns : bounded n outputs = some (v, rest)) : v < n := by
  unfold bounded at hreturns
  rw [if_neg hn] at hreturns
  cases outputs with
  | nil => cases hreturns
  | cons x outputs =>
    dsimp only at hreturns
    split at hreturns
    · exact redraw_lt hn (high_lt hn x) hreturns
    · cases hreturns
      exact high_lt hn x

/-- One draw is enough if its low part is not below the threshold. -/
theorem bounded_one_iff {n r x : UInt64} (hn : n ≠ 0) : bounded n [x] = some (r, []) ↔
    (mul64x64_hi x n).1 = r ∧ (~~~n + 1) % n ≤ (mul64x64_hi x n).2 := by
  have hthreshold : (~~~n + 1) % n < n := UInt64.mod_lt _ (UInt64.pos_iff_ne_zero.mpr hn)
  unfold bounded
  rw [if_neg hn]
  dsimp only
  split
  · rw [redraw]
    split
    · rename_i hlow
      simp [UInt64.not_le.mpr hlow]
    · rename_i hkept
      simp [UInt64.not_lt.mp hkept]
  · rename_i hlarge
    have hkept := UInt64.le_trans (UInt64.le_of_lt hthreshold) (UInt64.not_lt.mp hlarge)
    simp [hkept]

theorem ncard_bounded_one {n r : UInt64} (hr : r < n) :
    {x : UInt64 | bounded n [x] = some (r, [])}.ncard = 2 ^ 64 / n.toNat := by
  have hpos : 0 < n.toNat := Nat.zero_lt_of_lt hr
  have hn : n ≠ 0 := UInt64.pos_iff_ne_zero.mp hpos
  have hkept : ∀ x : UInt64, bounded n [x] = some (r, []) ↔
      x.toNat * n.toNat / 2 ^ 64 = r.toNat ∧ 2 ^ 64 % n.toNat ≤ x.toNat * n.toNat % 2 ^ 64 := fun x => by
    rw [bounded_one_iff hn, ← UInt64.toNat_inj, UInt64.le_iff_toNat_le, toNat_threshold hn,
      (mul64x64_hi_exact x n).1, (mul64x64_hi_exact x n).2]
  have himage : UInt64.toNat '' {x | bounded n [x] = some (r, [])} =
      {x | x * n.toNat / 2 ^ 64 = r.toNat ∧ 2 ^ 64 % n.toNat ≤ x * n.toNat % 2 ^ 64} := by
    ext x
    constructor
    · rintro ⟨y, hy, rfl⟩
      exact (hkept y).mp hy
    · intro hx
      -- The high part of a product with 2^64 or more would not be below n.
      have hfits : x < 2 ^ 64 := by
        have hlt := ((Words.high_eq_iff (by decide) x).mp hx).2
        have hnext : r.toNat + 1 ≤ n.toNat := hr
        refine Nat.lt_of_mul_lt_mul_right (a := n.toNat) (hlt.trans_le ?_)
        calc r.toNat * 2 ^ 64 + 2 ^ 64 = (r.toNat + 1) * 2 ^ 64 := by ring
          _ ≤ n.toNat * 2 ^ 64 := Nat.mul_le_mul_right _ hnext
          _ = 2 ^ 64 * n.toNat := Nat.mul_comm _ _
      have hword : (UInt64.ofNat x).toNat = x := UInt64.toNat_ofNat_of_lt' hfits
      refine ⟨UInt64.ofNat x, (hkept _).mpr ?_, hword⟩
      rw [hword]
      exact hx
  have hinjective : Function.Injective UInt64.toNat := fun _ _ heq => UInt64.toNat_inj.mp heq
  rw [← Set.ncard_image_of_injective _ hinjective, himage]
  exact Words.ncard_kept (by decide) hpos

/-- What is drawn is below the bound, one draw has as many values for one result as for
another, and products are the same without 128 bits. -/
theorem bounded_sound :
    (∀ (n v : UInt64) (outputs rest : List UInt64), 1 ≤ n → bounded n outputs = some (v, rest) → v < n) ∧
      (∀ n r : UInt64, r < n → {x : UInt64 | bounded n [x] = some (r, [])}.ncard = 2 ^ 64 / n.toNat) ∧
      ∀ a b : UInt64, mul64x64_hi_portable a b = mul64x64_hi a b ∧
        (mul64x64_hi_portable a b).1.toNat = a.toNat * b.toNat / 2 ^ 64 := by
  refine ⟨fun n v outputs rest hn hreturns => ?_, fun n r hr => ncard_bounded_one hr, fun a b => ?_⟩
  · exact bounded_lt (UInt64.pos_iff_ne_zero.mp hn) hreturns
  · have hsame := mul64x64_hi_portable_eq a b
    exact ⟨hsame, by rw [hsame, (mul64x64_hi_exact a b).1]⟩

/-- The first draw is one too many. -/
theorem bounded_sound_three : (2 : UInt64) < 3 ∧
    {x : UInt64 | bounded 3 [x] = some (2, [])}.ncard = 6148914691236517205 := by
  have hreturns : bounded 3 [0, 0xFFFFFFFFFFFFFFFF, 7] = some (2, [7]) := by decide +kernel
  exact ⟨bounded_sound.1 3 2 _ _ (by decide) hreturns, bounded_sound.2.1 3 2 (by decide)⟩

end ptl
