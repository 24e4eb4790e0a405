import Mathlib

/-! # The newest item of every key

Items carry a key and a stamp, and no two of them share both. The newest items of a list are those no
item of their key exceeds. A scan in descending order meets the newest item of a key first, and the newest of
all items is the newest of those it is selected with.
-/

namespace Cloudbreak.ToMathlib

variable {ι κ τ : Type*} [LinearOrder τ] {key : ι → κ} {stamp : ι → τ} {items : List ι} {item other : ι}

/-- No item under the same key has a higher stamp. -/
def IsNewest (key : ι → κ) (stamp : ι → τ) (items : List ι) (item : ι) : Prop :=
  ∀ other ∈ items, key other = key item → stamp other ≤ stamp item

instance [DecidableEq κ] : DecidablePred (IsNewest key stamp items) := fun _ =>
  inferInstanceAs (Decidable (∀ other ∈ items, _ → _))

/-- Items of one key have different stamps. -/
def OneEach (key : ι → κ) (stamp : ι → τ) (items : List ι) : Prop :=
  (items.map fun item => (key item, stamp item)).Nodup

namespace IsNewest

theorem mono {more : List ι} (newest : IsNewest key stamp more item) (subset : items ⊆ more) :
    IsNewest key stamp items item :=
  fun other member same => newest other (subset member) same

theorem perm {others : List ι} (permuted : items.Perm others) :
    IsNewest key stamp items item ↔ IsNewest key stamp others item :=
  ⟨fun newest => newest.mono permuted.symm.subset, fun newest => newest.mono permuted.subset⟩

/-- Two newest items of one key are the same item. -/
theorem unique (oneEach : OneEach key stamp items) (first : IsNewest key stamp items item)
    (second : IsNewest key stamp items other) (member : item ∈ items) (otherMember : other ∈ items)
    (same : key item = key other) : item = other := by
  have stamps : stamp item = stamp other :=
    le_antisymm (second item member same) (first other otherMember same.symm)
  exact List.inj_on_of_nodup_map oneEach member otherMember (by rw [same, stamps])

end IsNewest

/-- Every key of a list has a newest item. -/
theorem exists_isNewest [DecidableEq κ] (member : item ∈ items) :
    ∃ other ∈ items, key other = key item ∧ IsNewest key stamp items other := by
  cases found : (items.filter fun other => key other = key item).argmax stamp with
  | none =>
    have empty := List.argmax_eq_none.mp found
    have present : item ∈ items.filter fun other => key other = key item :=
      List.mem_filter.mpr ⟨member, decide_eq_true rfl⟩
    rw [empty] at present
    contradiction
  | some best =>
    obtain ⟨present, same⟩ := List.mem_filter.mp (List.argmax_mem found)
    refine ⟨best, present, of_decide_eq_true same, fun other otherMember otherSame => ?_⟩
    exact List.le_of_mem_argmax (List.mem_filter.mpr
      ⟨otherMember, decide_eq_true (otherSame.trans (of_decide_eq_true same))⟩) found

omit [LinearOrder τ] in
theorem OneEach.perm {others : List ι} (oneEach : OneEach key stamp items) (permuted : items.Perm others) :
    OneEach key stamp others :=
  (permuted.map _).nodup_iff.mp oneEach

/-- The newest items of a subset have distinct keys. -/
theorem OneEach.nodup_newest [DecidableEq κ] (oneEach : OneEach key stamp items) (keep : ι → Bool) :
    ((items.filter fun item => keep item && decide (IsNewest key stamp items item)).map key).Nodup := by
  have distinct : items.Nodup := List.Nodup.of_map _ oneEach
  refine List.Nodup.map_on (fun first member second otherMember same => ?_) (distinct.filter _)
  rw [List.mem_filter, Bool.and_eq_true, decide_eq_true_eq] at member otherMember
  exact IsNewest.unique oneEach member.2.2 otherMember.2.2 member.1 otherMember.1 same

section Descending

variable {last : ι} (below : ∀ item ∈ items, stamp last ≤ stamp item)

include below in
/-- An item at the end of a descending list does not change which earlier items are newest. -/
theorem isNewest_append_of_mem (member : item ∈ items) :
    IsNewest key stamp (items ++ [last]) item ↔ IsNewest key stamp items item := by
  refine ⟨fun newest => newest.mono (List.subset_append_left _ _), fun newest other present same => ?_⟩
  rcases List.mem_append.mp present with present | present
  · exact newest other present same
  · rw [List.mem_singleton.mp present]
    exact below item member

include below in
/-- The last item of a descending list is newest when its key is new. -/
theorem isNewest_append_last (oneEach : OneEach key stamp (items ++ [last])) :
    IsNewest key stamp (items ++ [last]) last ↔ key last ∉ items.map key := by
  constructor
  · intro newest present
    obtain ⟨other, member, same⟩ := List.mem_map.mp present
    have stamps : stamp other = stamp last :=
      le_antisymm (newest other (List.mem_append_left _ member) same) (below other member)
    rw [OneEach, List.map_append, List.nodup_append] at oneEach
    refine oneEach.2.2 _ (List.mem_map_of_mem member) _ (List.mem_map_of_mem (List.mem_singleton_self _)) ?_
    rw [same, stamps]
  · intro fresh other present same
    rcases List.mem_append.mp present with present | present
    · exact absurd (same ▸ List.mem_map_of_mem present) fresh
    · rw [List.mem_singleton.mp present]

include below in
/-- The newest items of a descending list grow by its last item, when its key is new. -/
theorem filter_newest_append [DecidableEq κ] (oneEach : OneEach key stamp (items ++ [last])) (keep : ι → Bool) :
    ((items ++ [last]).filter fun item => keep item && decide (IsNewest key stamp (items ++ [last]) item)) =
      (items.filter fun item => keep item && decide (IsNewest key stamp items item)) ++
        if keep last ∧ key last ∉ items.map key then [last] else [] := by
  rw [List.filter_append]
  congr 1
  · refine List.filter_congr fun item member => ?_
    rw [decide_eq_decide.mpr (isNewest_append_of_mem below member)]
  · rw [List.filter_singleton, Bool.cond_eq_ite]
    simp only [Bool.and_eq_true, decide_eq_true_eq, isNewest_append_last below oneEach]

end Descending

/-- The first largest item of a list is the first largest of those that satisfy what it satisfies. -/
theorem argmax_filter {α : Type*} {f : α → ℕ} {items : List α} {item : α} (keep : α → Bool)
    (largest : items.argmax f = some item) (kept : keep item = true) : (items.filter keep).argmax f = some item := by
  induction items using List.reverseRecOn generalizing item with
  | nil => simp at largest
  | append_singleton front last ih =>
    rw [List.argmax_concat] at largest
    rw [List.filter_append, List.filter_singleton]
    cases found : front.argmax f with
    | none =>
      rw [found] at largest
      cases largest
      have empty : front = [] := List.argmax_eq_none.mp found
      rw [empty, kept]
      rfl
    | some best =>
      rw [found] at largest
      dsimp only at largest
      split at largest
      · next less =>
        cases largest
        rw [kept, cond_true, List.argmax_concat]
        cases filtered : (front.filter keep).argmax f with
        | none => rfl
        | some other =>
          have member : other ∈ front := List.mem_of_mem_filter (List.argmax_mem filtered)
          have le : f other ≤ f best := List.le_of_mem_argmax member found
          exact if_pos (le.trans_lt less)
      · next notLess =>
        cases largest
        have before := ih found kept
        cases keep last with
        | true =>
          rw [cond_true, List.argmax_concat, before]
          exact if_neg notLess
        | false =>
          rw [cond_false, List.append_nil]
          exact before

end Cloudbreak.ToMathlib
