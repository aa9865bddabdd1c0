import Mathlib.Data.Set.Card
import Mathlib.Order.Interval.Finset.Nat

/-! Words of w bits: maps between them that lose nothing, and the draws whose product with a
bound has a given high part. -/

namespace Words

variable {w k : Nat}

/-- No bit of a word that is its own shift is set: it would be set further down, too. -/
theorem eq_zero_of_shiftLeft {x : BitVec w} (hk : 0 < k) (hfix : x <<< k = x) : x = 0#w := by
  have hbit : ∀ i, x.getLsbD i = false := by
    intro i
    induction i using Nat.strongRecOn with
    | _ i ih =>
      rw [← hfix, BitVec.getLsbD_shiftLeft]
      by_cases hlow : i < k
      · simp [hlow]
      · simp [ih (i - k) (by omega)]
  exact BitVec.eq_of_getLsbD_eq fun i _ => by simp [hbit i]

theorem eq_zero_of_ushiftRight {x : BitVec w} (hk : 0 < k) (hfix : x >>> k = x) : x = 0#w := by
  have hbit : ∀ above i, w - i ≤ above → x.getLsbD i = false := by
    intro above
    induction above with
    | zero =>
      intro i hi
      exact BitVec.getLsbD_of_ge x i (by omega)
    | succ above ih =>
      intro i hi
      rw [← hfix, BitVec.getLsbD_ushiftRight]
      exact ih (k + i) (by omega)
  exact BitVec.eq_of_getLsbD_eq fun i _ => by simp [hbit (w - i) i le_rfl]

theorem xor_swap {x y a b : BitVec w} (heq : x ^^^ a = y ^^^ b) : a ^^^ b = x ^^^ y := by
  calc a ^^^ b = x ^^^ (x ^^^ a) ^^^ b := by rw [← BitVec.xor_assoc, BitVec.xor_self, BitVec.zero_xor]
    _ = x ^^^ y := by rw [heq, ← BitVec.xor_assoc, BitVec.xor_assoc _ b b, BitVec.xor_self, BitVec.xor_zero]

/-- A word goes into its sum with its own shift and comes out again. -/
theorem xor_shiftLeft_injective (hk : 0 < k) : Function.Injective fun x : BitVec w => x ^^^ x <<< k := by
  intro x y heq
  have hfix : (x ^^^ y) <<< k = x ^^^ y := by
    rw [BitVec.shiftLeft_xor_distrib]
    exact xor_swap heq
  exact BitVec.xor_eq_zero_iff.mp (eq_zero_of_shiftLeft hk hfix)

theorem xor_ushiftRight_injective (hk : 0 < k) : Function.Injective fun x : BitVec w => x ^^^ x >>> k := by
  intro x y heq
  have hfix : (x ^^^ y) >>> k = x ^^^ y := by
    rw [BitVec.ushiftRight_xor_distrib]
    exact xor_swap heq
  exact BitVec.xor_eq_zero_iff.mp (eq_zero_of_ushiftRight hk hfix)

/-- Every bit of a word is one of its rotation. -/
theorem rotate_injective (hk : k < w) : Function.Injective fun x : BitVec w => x <<< k ||| x >>> (w - k) := by
  intro x y heq
  have hbits : ∀ i, (x <<< k ||| x >>> (w - k)).getLsbD i = (y <<< k ||| y >>> (w - k)).getLsbD i :=
    fun i => congrArg (fun z => BitVec.getLsbD z i) heq
  refine BitVec.eq_of_getLsbD_eq fun i hi => ?_
  by_cases hlow : i + k < w
  · have hbit := hbits (i + k)
    rw [BitVec.getLsbD_or, BitVec.getLsbD_or, BitVec.getLsbD_shiftLeft, BitVec.getLsbD_shiftLeft,
      BitVec.getLsbD_ushiftRight, BitVec.getLsbD_ushiftRight, BitVec.getLsbD_of_ge x (w - k + (i + k)) (by omega),
      BitVec.getLsbD_of_ge y (w - k + (i + k)) (by omega)] at hbit
    simpa [hlow] using hbit
  · have hbit := hbits (i + k - w)
    have hplace : w - k + (i + k - w) = i := by omega
    have hshort : i + k - w < k := by omega
    rw [BitVec.getLsbD_or, BitVec.getLsbD_or, BitVec.getLsbD_shiftLeft, BitVec.getLsbD_shiftLeft,
      BitVec.getLsbD_ushiftRight, BitVec.getLsbD_ushiftRight, hplace] at hbit
    simpa [hshort] using hbit

theorem mul_injective {c d : BitVec w} (hunit : c * d = 1#w) : Function.Injective fun x : BitVec w => x * c := by
  intro x y heq
  calc x = x * c * d := by rw [BitVec.mul_assoc, hunit, BitVec.mul_one]
    _ = y * c * d := congrArg (· * d) heq
    _ = y := by rw [BitVec.mul_assoc, hunit, BitVec.mul_one]

/-! ### Draws below a bound

A draw below b is multiplied by n. The high part of the product is below n, and the low part
says which draws are too many. -/

section Draws

variable {b n r : Nat}

theorem high_eq_iff (hb : 0 < b) (x : Nat) :
    x * n / b = r ∧ b % n ≤ x * n % b ↔ r * b + b % n ≤ x * n ∧ x * n < r * b + b := by
  have hsplit := Nat.div_add_mod' (x * n) b
  have hlow := Nat.mod_lt (x * n) hb
  constructor
  · rintro ⟨rfl, hle⟩
    omega
  · rintro ⟨hle, hlt⟩
    have hhigh : x * n / b = r := by
      rw [Nat.div_eq_iff hb]
      omega
    rw [hhigh] at hsplit
    exact ⟨hhigh, by omega⟩

/-- The draws that are kept for one result are consecutive. -/
theorem kept_iff (hb : 0 < b) (hn : 0 < n) (x : Nat) :
    x * n / b = r ∧ b % n ≤ x * n % b ↔
      (r * b + b % n + (n - 1)) / n ≤ x ∧ x < (r * b + b % n + (n - 1)) / n + b / n := by
  have hparts := Nat.div_add_mod b n
  have hceil : ∀ c, (c + (n - 1)) / n ≤ x ↔ c ≤ x * n := fun c => by
    rw [Nat.div_le_iff_le_mul_add_pred hn, Nat.mul_comm n]
    omega
  have hnext : (r * b + b % n + (n - 1)) / n + b / n = (r * b + b + (n - 1)) / n := by
    rw [← Nat.add_mul_div_left _ _ hn]
    congr 1
    omega
  rw [high_eq_iff hb, hnext, hceil, ← not_le, ← not_le, hceil]

/-- Every result has the same number of draws. -/
theorem ncard_kept (hb : 0 < b) (hn : 0 < n) : {x | x * n / b = r ∧ b % n ≤ x * n % b}.ncard = b / n := by
  have hset : {x | x * n / b = r ∧ b % n ≤ x * n % b} =
      Finset.Ico ((r * b + b % n + (n - 1)) / n) ((r * b + b % n + (n - 1)) / n + b / n) := by
    ext x
    rw [Set.mem_ofPred_eq, kept_iff hb hn, Finset.coe_Ico, Set.mem_Ico]
  rw [hset, Set.ncard_coe_finset, Nat.card_Ico, Nat.add_sub_cancel_left]

end Draws

end Words
