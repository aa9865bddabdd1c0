import TradingLab.Codec
import TradingLab.Core.Numbers

open Codec

namespace ptl

/-- The number that bytes in memory hold, the lowest first. -/
def value_of : List UInt8 → Nat
  | [] => 0
  | b :: bytes => b.toNat + 256 * value_of bytes

theorem value_of_memory {size n : Nat} (hfits : n < 256 ^ size) : value_of (memory size n) = n := by
  induction size generalizing n with
  | zero =>
    obtain rfl : n = 0 := by omega
    rfl
  | succ size ih =>
    have hrest : n / 256 < 256 ^ size := by
      rw [pow_succ] at hfits
      omega
    have hbyte : (UInt8.ofNat n).toNat = n % 256 := UInt8.toNat_ofNat'
    rw [memory, value_of, ih hrest, hbyte]
    omega

theorem memory_value_of (bytes : List UInt8) : memory bytes.length (value_of bytes) = bytes := by
  induction bytes with
  | nil => rfl
  | cons b bytes ih =>
    have hbound : b.toNat < 256 := b.toNat_lt
    have hrest : (b.toNat + 256 * value_of bytes) / 256 = value_of bytes := by omega
    have hlow : UInt8.ofNat (b.toNat + 256 * value_of bytes) = b := by
      apply UInt8.toNat_inj.mp
      rw [UInt8.toNat_ofNat']
      omega
    rw [List.length_cons, memory, value_of, hrest, hlow, ih]

theorem value_of_lt (bytes : List UInt8) : value_of bytes < 256 ^ bytes.length := by
  induction bytes with
  | nil => exact Nat.one_pos
  | cons b bytes ih =>
    have hbound : b.toNat < 256 := b.toNat_lt
    rw [List.length_cons, pow_succ, value_of]
    omega

/-! ### Reading plain data -/

section Pod

variable {E : Type} (failure : E)

/-- A number of some bytes, as it lies in memory. -/
def read_pod (size : Nat) : Reader UInt8 E Nat := mapped (fun bytes => value_of bytes.1) (block failure size)

def read32 : Reader UInt8 E UInt32 := mapped UInt32.ofNat (read_pod failure 4)
def read64 : Reader UInt8 E UInt64 := mapped UInt64.ofNat (read_pod failure 8)

theorem read_pod_parses (size : Nat) : Parses (read_pod failure size) (memory size) (· < 256 ^ size) where
  sound hread := by
    obtain ⟨⟨bytes, hlength⟩, hbytes, rfl⟩ := mapped_ok_iff.mp hread
    obtain ⟨hinput, -⟩ := (block_parses failure size).sound hbytes
    subst hlength
    rw [memory_value_of]
    exact ⟨hinput, value_of_lt bytes⟩
  complete {n} rest hfits := mapped_ok_iff.mpr
    ⟨⟨memory size n, length_memory size n⟩,
      (block_parses failure size).complete (a := ⟨memory size n, length_memory size n⟩) rest trivial,
      value_of_memory hfits⟩

theorem read32_parses : Parses (read32 failure) sizeof32 fun _ => True where
  sound hread := by
    obtain ⟨n, hn, rfl⟩ := mapped_ok_iff.mp hread
    obtain ⟨hinput, hfits⟩ := (read_pod_parses failure 4).sound hn
    rw [sizeof32, UInt32.toNat_ofNat_of_lt' hfits]
    exact ⟨hinput, trivial⟩
  complete {x} rest _ := mapped_ok_iff.mpr
    ⟨x.toNat, (read_pod_parses failure 4).complete rest x.toNat_lt, UInt32.ofNat_toNat⟩

theorem read64_parses : Parses (read64 failure) sizeof64 fun _ => True where
  sound hread := by
    obtain ⟨n, hn, rfl⟩ := mapped_ok_iff.mp hread
    obtain ⟨hinput, hfits⟩ := (read_pod_parses failure 8).sound hn
    rw [sizeof64, UInt64.toNat_ofNat_of_lt' hfits]
    exact ⟨hinput, trivial⟩
  complete {x} rest _ := mapped_ok_iff.mpr
    ⟨x.toNat, (read_pod_parses failure 8).complete rest x.toNat_lt, UInt64.ofNat_toNat⟩

/-- A number that has to be there. What is wrong is told with what was read, if
only in part. -/
def expect_pod (wrong : Nat → E) (size expected : Nat) : Reader UInt8 E Unit := fun input =>
  let found := value_of (input.take size)
  if input.length < size ∨ found ≠ expected then .error (wrong found) else .ok ((), input.drop size)

theorem expect_pod_parses (wrong : Nat → E) {size expected : Nat} (hfits : expected < 256 ^ size) :
    Parses (expect_pod wrong size expected) (fun _ => memory size expected) fun _ => True where
  sound {input u rest} hread := by
    unfold expect_pod at hread
    dsimp only at hread
    split at hread
    · exact nomatch hread
    · rename_i hfound
      obtain ⟨hlong, hvalue⟩ := not_or.mp hfound
      obtain rfl := (Prod.mk.inj (Except.ok.inj hread)).2
      have hlength : (input.take size).length = size := List.length_take_of_le (Nat.not_lt.mp hlong)
      have hbytes := memory_value_of (input.take size)
      rw [hlength, not_not.mp hvalue] at hbytes
      exact ⟨by rw [hbytes, List.take_append_drop], trivial⟩
  complete rest _ := by
    have hlength := length_memory size expected
    have hlong : ¬ (memory size expected ++ rest).length < size := by
      rw [List.length_append]
      omega
    have hfound : value_of ((memory size expected ++ rest).take size) = expected := by
      rw [List.take_left' hlength, value_of_memory hfits]
    rw [expect_pod]
    rw [if_neg (not_or.mpr ⟨hlong, not_not.mpr hfound⟩), List.drop_left' hlength]

end Pod

end ptl
