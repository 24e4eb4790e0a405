import Mathlib

/-! # Fixed-width little-endian numbers

A number is written as a fixed count of bytes with the least significant byte first, and any list of
bytes is read back as a number. Numbers within the width survive the trip, so the encoding is injective
on them.
-/

namespace Cloudbreak.LittleEndian

/-- The lowest `width` bytes of a number, least significant first. -/
def toBytes : ℕ → ℕ → List UInt8
  | 0, _ => []
  | width + 1, value => UInt8.ofNat (value % 256) :: toBytes width (value / 256)

/-- The number that a list of bytes stands for. -/
def ofBytes : List UInt8 → ℕ
  | [] => 0
  | byte :: bytes => byte.toNat + 256 * ofBytes bytes

@[simp] theorem length_toBytes (width value : ℕ) : (toBytes width value).length = width := by
  induction width generalizing value with
  | zero => rfl
  | succ width ih => simp only [toBytes, List.length_cons, ih]

theorem ofBytes_toBytes {width value : ℕ} (bound : value < 256 ^ width) :
    ofBytes (toBytes width value) = value := by
  induction width generalizing value with
  | zero =>
    simp only [pow_zero, Nat.lt_one_iff] at bound
    simp only [toBytes, ofBytes, bound]
  | succ width ih =>
    have quotient : value / 256 < 256 ^ width := by
      rw [pow_succ] at bound
      omega
    have byte : (UInt8.ofNat (value % 256)).toNat = value % 256 := by
      rw [UInt8.toNat_ofNat']
      omega
    simp only [toBytes, ofBytes, byte, ih quotient]
    omega

theorem ofBytes_lt (bytes : List UInt8) : ofBytes bytes < 256 ^ bytes.length := by
  induction bytes with
  | nil => simp [ofBytes]
  | cons byte bytes ih =>
    have small := byte.toNat_lt
    simp only [ofBytes, List.length_cons, pow_succ]
    omega

theorem ofBytes_lt_of_length {width : ℕ} {bytes : List UInt8} (exact_width : bytes.length = width) :
    ofBytes bytes < 256 ^ width := by
  rw [← exact_width]
  exact ofBytes_lt bytes

theorem toBytes_injective {width first second : ℕ} (bound_first : first < 256 ^ width)
    (bound_second : second < 256 ^ width) (same : toBytes width first = toBytes width second) :
    first = second := by
  rw [← ofBytes_toBytes bound_first, same, ofBytes_toBytes bound_second]

end Cloudbreak.LittleEndian
