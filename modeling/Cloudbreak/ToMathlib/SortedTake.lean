import Mathlib

/-! # The least elements of a list -/

namespace Cloudbreak.ToMathlib

variable {α : Type*} [LinearOrder α]

/-- The first elements of a sorted list are those with few elements below them. -/
theorem mem_take_iff_of_sorted {items : List α} (sorted : items.Pairwise (· < ·)) {count : ℕ} {item : α} :
    item ∈ items.take count ↔ item ∈ items ∧ (items.filter fun other => decide (other < item)).length < count := by
  induction items generalizing count with
  | nil => simp
  | cons first rest ih =>
    obtain ⟨above, sorted⟩ := List.pairwise_cons.mp sorted
    cases count with
    | zero => simp
    | succ count =>
      rw [List.take_succ_cons, List.mem_cons, List.mem_cons, ih sorted]
      constructor
      · rintro (rfl | ⟨member, few⟩)
        · have noneBelow : rest.filter (fun other => decide (other < item)) = [] :=
            List.filter_eq_nil_iff.mpr fun other isOther => by
              simpa using (above other isOther).le
          refine ⟨Or.inl rfl, ?_⟩
          rw [List.filter_cons_of_neg (by simp), noneBelow]
          exact Nat.succ_pos count
        · refine ⟨Or.inr member, ?_⟩
          rw [List.filter_cons_of_pos (by simpa using above item member), List.length_cons]
          omega
      · rintro ⟨rfl | member, few⟩
        · exact Or.inl rfl
        · rw [List.filter_cons_of_pos (by simpa using above item member), List.length_cons] at few
          exact Or.inr ⟨member, by omega⟩

/-- The first elements after sorting are those with few elements below them. -/
theorem mem_take_insertionSort_iff {items : List α} (distinct : items.Nodup) {count : ℕ} {item : α} :
    item ∈ (items.insertionSort (· ≤ ·)).take count ↔
      item ∈ items ∧ (items.filter fun other => decide (other < item)).length < count := by
  have permuted := List.perm_insertionSort (· ≤ ·) items
  have sorted : (items.insertionSort (· ≤ ·)).Pairwise (· < ·) :=
    ((List.pairwise_insertionSort (· ≤ ·) items).and (permuted.nodup_iff.mpr distinct)).imp
      fun ⟨le, ne⟩ => lt_of_le_of_ne le ne
  rw [mem_take_iff_of_sorted sorted, permuted.mem_iff, (permuted.filter _).length_eq]

end Cloudbreak.ToMathlib
