import Mathlib

/-! # The latest rows of a table

The rows with the highest keys only depend on the rows from some key on, when there are enough of them.
-/

namespace Cloudbreak.ToMathlib

variable {α : Type*} {key : α → ℕ} {rows others : List α} {count low : ℕ}

/-- Highest key first. -/
def latestFirst (key : α → ℕ) (rows : List α) : List α := rows.mergeSort fun row other => decide (key other ≤ key row)

/-- The rows with the highest keys. -/
def latest (key : α → ℕ) (count : ℕ) (rows : List α) : List α := (latestFirst key rows).take count

theorem latestFirst_perm : (latestFirst key rows).Perm rows := List.mergeSort_perm _ _

theorem pairwise_latestFirst : (latestFirst key rows).Pairwise fun row other => key other ≤ key row := by
  refine (List.pairwise_mergeSort ?_ ?_ rows).imp of_decide_eq_true
  · intro first second third above below
    exact decide_eq_true ((of_decide_eq_true below).trans (of_decide_eq_true above))
  · intro first second
    rw [Bool.or_eq_true, decide_eq_true_iff, decide_eq_true_iff]
    exact Nat.le_total _ _

/-- Rows with distinct keys have one order. -/
theorem eq_latestFirst (distinct : (rows.map key).Nodup) {sorted : List α} (permuted : sorted.Perm rows)
    (ordered : sorted.Pairwise fun row other => key other ≤ key row) : sorted = latestFirst key rows := by
  refine List.Perm.eq_of_pairwise ?_ ordered pairwise_latestFirst (permuted.trans latestFirst_perm.symm)
  intro row other member isOther above below
  exact List.inj_on_of_nodup_map distinct (permuted.subset member) (latestFirst_perm.subset isOther)
    (Nat.le_antisymm below above)

/-- The rows from a key on come first. -/
theorem latestFirst_filter_append (distinct : (rows.map key).Nodup) (low : ℕ) :
    latestFirst key (rows.filter fun row => decide (low ≤ key row)) ++
      latestFirst key (rows.filter fun row => !decide (low ≤ key row)) = latestFirst key rows := by
  refine eq_latestFirst distinct ((latestFirst_perm.append latestFirst_perm).trans (List.filter_append_perm _ _)) ?_
  refine List.pairwise_append.mpr ⟨pairwise_latestFirst, pairwise_latestFirst, fun row member other isOther => ?_⟩
  have above := (List.mem_filter.mp (latestFirst_perm.subset member)).2
  have below := (List.mem_filter.mp (latestFirst_perm.subset isOther)).2
  rw [decide_eq_true_iff] at above
  rw [Bool.not_eq_true', decide_eq_false_iff_not] at below
  omega

theorem latest_filter (distinct : (rows.map key).Nodup)
    (enough : count ≤ (rows.filter fun row => decide (low ≤ key row)).length) :
    latest key count (rows.filter fun row => decide (low ≤ key row)) = latest key count rows := by
  rw [latest, latest, ← latestFirst_filter_append distinct low, List.take_append_of_le_length]
  rwa [latestFirst_perm.length_eq]

/-- Two tables with the same rows from a key on have the same latest rows, when these are enough. -/
theorem latest_eq_of_agree (distinct : (rows.map key).Nodup) (distinctOthers : (others.map key).Nodup)
    (agree : ∀ row, low ≤ key row → (row ∈ rows ↔ row ∈ others))
    (enough : count ≤ (others.filter fun row => decide (low ≤ key row)).length) :
    latest key count rows = latest key count others := by
  have permuted : (rows.filter fun row => decide (low ≤ key row)).Perm
      (others.filter fun row => decide (low ≤ key row)) := by
    refine (List.perm_ext_iff_of_nodup (distinct.of_map.filter _) (distinctOthers.of_map.filter _)).mpr fun row => ?_
    rw [List.mem_filter, List.mem_filter, decide_eq_true_iff]
    exact and_congr_left fun above => agree row above
  have distinctLatest : ((others.filter fun row => decide (low ≤ key row)).map key).Nodup :=
    distinctOthers.sublist (List.filter_sublist.map key)
  have same : latestFirst key (rows.filter fun row => decide (low ≤ key row)) =
      latestFirst key (others.filter fun row => decide (low ≤ key row)) :=
    eq_latestFirst distinctLatest (latestFirst_perm.trans permuted) pairwise_latestFirst
  rw [← latest_filter distinct (permuted.length_eq ▸ enough), ← latest_filter distinctOthers enough, latest, latest, same]

end Cloudbreak.ToMathlib
