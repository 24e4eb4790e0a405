import Mathlib

/-! # Byte strings of PostgreSQL

The order and the substring of `BYTEA` values. A substring names its first position from one on and is clipped to
the string: what lies outside is left out without an error.
-/

namespace Cloudbreak.ToMathlib.Bytea

/-- The strict order: by the first byte that differs, and a proper beginning comes first. -/
def lt : List UInt8 → List UInt8 → Bool
  | _, [] => false
  | [], _ :: _ => true
  | first :: rest, other :: others => decide (first < other) || (decide (first = other) && lt rest others)

/-- Against two bytes only the first two count. -/
theorem lt_two (first second other another : UInt8) (rest : List UInt8) :
    lt (first :: second :: rest) [other, another] =
      decide (256 * first.toNat + second.toNat < 256 * other.toNat + another.toNat) := by
  have below := second.toNat_lt
  have under := another.toNat_lt
  rw [Bool.eq_iff_iff]
  simp only [lt, Bool.and_false, Bool.or_false, Bool.or_eq_true, Bool.and_eq_true, decide_eq_true_eq,
    UInt8.lt_iff_toNat_lt, ← UInt8.toNat_inj]
  omega

/-- `SUBSTRING(bytes FROM start FOR length)`. -/
def substring (bytes : List UInt8) (start length : ℕ) : List UInt8 :=
  (bytes.drop (start - 1)).take (start + length - max start 1)

theorem substring_succ (bytes : List UInt8) (offset length : ℕ) :
    substring bytes (offset + 1) length = (bytes.drop offset).take length := by
  unfold substring
  congr 1
  omega

/-- A substring is as long as asked for only where it is not clipped. -/
theorem substring_eq_iff {bytes wanted : List UInt8} {offset : ℕ} :
    substring bytes (offset + 1) wanted.length = wanted ↔
      wanted = [] ∨ offset + wanted.length ≤ bytes.length ∧ (bytes.drop offset).take wanted.length = wanted := by
  rw [substring_succ]
  constructor
  · intro same
    have size := congrArg List.length same
    rw [List.length_take, List.length_drop] at size
    rcases Nat.eq_zero_or_pos wanted.length with empty | filled
    · exact Or.inl (List.length_eq_zero_iff.mp empty)
    · exact Or.inr ⟨by omega, same⟩
  · rintro (rfl | ⟨-, same⟩)
    · rfl
    · exact same

/-- Two neighbouring substrings make up one. -/
theorem substring_append_iff {bytes first second : List UInt8} {offset : ℕ} (filled : second ≠ []) :
    (substring bytes (offset + 1) first.length = first ∧
        substring bytes (offset + first.length + 1) second.length = second) ↔
      substring bytes (offset + 1) (first ++ second).length = first ++ second := by
  rw [substring_succ, substring_succ, substring_succ, List.length_append, List.take_add, List.drop_drop]
  constructor
  · rintro ⟨left, right⟩
    rw [left, right]
  · intro both
    have size := congrArg List.length both
    have more := List.length_pos_iff.mpr filled
    rw [List.length_append, List.length_append, List.length_take, List.length_take, List.length_drop,
      List.length_drop] at size
    refine List.append_inj both ?_
    rw [List.length_take, List.length_drop]
    omega

end Cloudbreak.ToMathlib.Bytea
