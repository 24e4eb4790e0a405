import Mathlib

/-! # Folds whose steps are local to a key

A step that reads and writes only the part of the state under its own key commutes with looking at one
key at a time: over items with distinct keys, the final view of a key is one local step on its first
view, and whatever the steps accumulate depends on the first views alone. Without distinct keys the view is
folded over the items of its key. The last lemma is the matching fact for a sum over all keys.
-/

namespace Cloudbreak.ToMathlib

variable {σ ι κ V M : Type*} [DecidableEq κ]

/-- One step changes only the view of its own key. -/
structure KeyLocal (step : σ → ι → σ) (key : ι → κ) (view : σ → κ → V) (act : ι → V → V)
    (valid : σ → Prop) : Prop where
  keeps : ∀ state item, valid state → valid (step state item)
  acts : ∀ state item other, valid state →
    view (step state item) other = if other = key item then act item (view state other) else view state other

namespace KeyLocal

variable {step : σ → ι → σ} {key : ι → κ} {view : σ → κ → V} {act : ι → V → V} {valid : σ → Prop}

theorem valid_foldl (isLocal : KeyLocal step key view act valid) {state : σ} (start : valid state)
    (items : List ι) : valid (items.foldl step state) := by
  induction items generalizing state with
  | nil => exact start
  | cons item rest ih => exact ih (isLocal.keeps state item start)

theorem view_foldl_of_not_mem (isLocal : KeyLocal step key view act valid) {state : σ}
    (start : valid state) {items : List ι} {other : κ} (absent : other ∉ items.map key) :
    view (items.foldl step state) other = view state other := by
  induction items generalizing state with
  | nil => rfl
  | cons item rest ih =>
    simp only [List.map_cons, List.mem_cons, not_or] at absent
    rw [List.foldl_cons, ih (isLocal.keeps state item start) absent.2, isLocal.acts _ _ _ start,
      if_neg absent.1]

/-- The view of a key after the fold is one local step on its first view. -/
theorem view_foldl_of_mem (isLocal : KeyLocal step key view act valid) {state : σ}
    (start : valid state) {items : List ι} (distinct : (items.map key).Nodup) {item : ι}
    (member : item ∈ items) :
    view (items.foldl step state) (key item) = act item (view state (key item)) := by
  induction items generalizing state with
  | nil => simp at member
  | cons first rest ih =>
    rw [List.map_cons, List.nodup_cons] at distinct
    rw [List.foldl_cons]
    rcases List.mem_cons.mp member with rfl | member
    · rw [isLocal.view_foldl_of_not_mem (isLocal.keeps state item start) distinct.1,
        isLocal.acts _ _ _ start, if_pos rfl]
    · have other : key item ≠ key first := by
        rintro same
        exact distinct.1 (same ▸ List.mem_map_of_mem member)
      rw [ih (isLocal.keeps state first start) distinct.2 member, isLocal.acts _ _ _ start, if_neg other]

/-- The view of a key after a fold is the fold of the local steps of its items. -/
theorem view_foldl (isLocal : KeyLocal step key view act valid) {state : σ} (start : valid state)
    (items : List ι) (other : κ) :
    view (items.foldl step state) other =
      (items.filter fun item => decide (key item = other)).foldl (fun seen item => act item seen) (view state other) := by
  induction items generalizing state with
  | nil => rfl
  | cons item rest ih =>
    rw [List.foldl_cons, ih (isLocal.keeps state item start), isLocal.acts _ _ _ start, List.filter_cons]
    rcases eq_or_ne other (key item) with same | differs
    · rw [if_pos same, if_pos (decide_eq_true same.symm), List.foldl_cons]
    · rw [if_neg differs, if_neg fun equal => differs (of_decide_eq_true equal).symm]

/-- What the steps accumulate is determined by the first views. -/
theorem acc_foldl (isLocal : KeyLocal step key view act valid) (acc : σ → M) (op : M → M → M)
    (gain : ι → V → M)
    (gains : ∀ state item, valid state → acc (step state item) = op (acc state) (gain item (view state (key item))))
    {state : σ} (start : valid state) {items : List ι} (distinct : (items.map key).Nodup) :
    acc (items.foldl step state) =
      items.foldl (fun total item => op total (gain item (view state (key item)))) (acc state) := by
  induction items generalizing state with
  | nil => rfl
  | cons first rest ih =>
    rw [List.map_cons, List.nodup_cons] at distinct
    rw [List.foldl_cons, List.foldl_cons, ih (isLocal.keeps state first start) distinct.2, gains _ _ start]
    refine List.foldl_ext _ _ _ fun total item member => ?_
    have other : key item ≠ key first := by
      rintro same
      exact distinct.1 (same ▸ List.mem_map_of_mem member)
    rw [isLocal.acts _ _ _ start, if_neg other]

end KeyLocal

theorem foldl_add_eq_sum {α : Type*} [AddCommMonoid M] (items : List α) (value : α → M) (start : M) :
    items.foldl (fun total item => total + value item) start = start + (items.map value).sum := by
  induction items generalizing start with
  | nil => simp
  | cons item rest ih => rw [List.foldl_cons, ih, List.map_cons, List.sum_cons, add_assoc]

theorem foldl_append_eq_flatMap {α β : Type*} (items : List α) (emit : α → List β) (start : List β) :
    items.foldl (fun out item => out ++ emit item) start = start ++ items.flatMap emit := by
  induction items generalizing start with
  | nil => simp
  | cons item rest ih => rw [List.foldl_cons, ih, List.flatMap_cons, List.append_assoc]

/-- A total over all keys changes by the changes at the listed keys. -/
theorem sum_eq_add_of_changed [Fintype κ] {before after : κ → ℤ} {keys : List κ} (distinct : keys.Nodup)
    (unchanged : ∀ key, key ∉ keys → after key = before key) :
    ∑ key, after key = ∑ key, before key + (keys.map fun key => after key - before key).sum := by
  have changes : ∑ key, (after key - before key) = ∑ key ∈ keys.toFinset, (after key - before key) := by
    refine (Finset.sum_subset (Finset.subset_univ _) fun key _ outside => ?_).symm
    rw [unchanged key (by simpa using outside), sub_self]
  rw [Finset.sum_sub_distrib, List.sum_toFinset _ distinct] at changes
  rw [← changes, add_sub_cancel]

end Cloudbreak.ToMathlib
