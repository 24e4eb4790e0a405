import Cloudbreak.ToMathlib.HashMap

/-! # Maps that keep the greatest value of each key

Merging a pair into such a map raises the value of its key or leaves it. A fold of merges therefore
holds, for each key, the greatest of the first value and the merged ones, whatever the order.
-/

namespace Cloudbreak.ToMathlib.HashMap

variable {κ α : Type} [DecidableEq κ] [LinearOrder α]

/-- Stores a value under its key unless the map holds a greater one. -/
def mergeMax (map : HashMap κ α) (item : κ × α) : HashMap κ α :=
  map.insert item.1 ((map.lookup item.1).elim item.2 (max · item.2))

theorem lookup_mergeMax_iff {map : HashMap κ α} {item : κ × α} {key : κ} {value : α} :
    (map.mergeMax item).lookup key = some value ↔
      IsGreatest {held | map.lookup key = some held ∨ (key, held) = item} value := by
  obtain ⟨at_, new⟩ := item
  rw [mergeMax, lookup_insert]
  by_cases same : key = at_
  · subst same
    rw [if_pos rfl, Option.some.injEq]
    cases found : map.lookup key with
    | none => simpa [IsGreatest, upperBounds, eq_comm] using fun same : value = new => same.ge
    | some held =>
      simp only [Option.elim_some, IsGreatest, upperBounds, Set.mem_ofPred_eq, Option.some.injEq, Prod.mk.injEq,
        true_and]
      constructor
      · rintro rfl
        refine ⟨?_, ?_⟩
        · rcases max_choice held new with first | second
          · exact Or.inl first.symm
          · exact Or.inr second
        · rintro _ (rfl | rfl)
          · exact le_max_left _ _
          · exact le_max_right _ _
      · rintro ⟨attained, above⟩
        have first := above (Or.inl rfl)
        have second := above (Or.inr rfl)
        rcases attained with rfl | rfl
        · exact max_eq_left second
        · exact max_eq_right first
  · rw [if_neg same]
    simp only [IsGreatest, upperBounds, Set.mem_ofPred_eq, Prod.mk.injEq, same, false_and, or_false]
    constructor
    · intro found
      refine ⟨found, fun other isOther => ?_⟩
      rw [found, Option.some.injEq] at isOther
      exact isOther.ge
    · exact And.left

/-- A held value and the merged one are at most the value held afterwards. -/
theorem exists_lookup_mergeMax {map : HashMap κ α} {item : κ × α} {key : κ} {value : α}
    (given : map.lookup key = some value ∨ (key, value) = item) :
    ∃ most, (map.mergeMax item).lookup key = some most ∧ value ≤ most := by
  have present : ∃ most, (map.mergeMax item).lookup key = some most := by
    rw [mergeMax, lookup_insert]
    by_cases same : key = item.1
    · exact ⟨_, if_pos same⟩
    · rw [if_neg same]
      refine ⟨value, given.resolve_right fun isItem => same ?_⟩
      rw [← isItem]
  obtain ⟨most, merged⟩ := present
  exact ⟨most, merged, (lookup_mergeMax_iff.mp merged).2 given⟩

/-- After merging items a key has the greatest of its first value and the merged ones. -/
theorem lookup_foldl_mergeMax_iff {items : List (κ × α)} {map : HashMap κ α} {key : κ} {value : α} :
    (items.foldl mergeMax map).lookup key = some value ↔
      IsGreatest {held | map.lookup key = some held ∨ (key, held) ∈ items} value := by
  induction items generalizing map with
  | nil =>
    simp only [List.foldl_nil, List.not_mem_nil, or_false, IsGreatest, upperBounds, Set.mem_ofPred_eq]
    constructor
    · intro found
      refine ⟨found, fun other isOther => ?_⟩
      rw [found, Option.some.injEq] at isOther
      exact isOther.ge
    · exact And.left
  | cons item rest ih =>
    rw [List.foldl_cons, ih]
    constructor
    · rintro ⟨attained, above⟩
      refine ⟨?_, ?_⟩
      · rcases attained with merged | later
        · exact (lookup_mergeMax_iff.mp merged).1.imp_right fun same => List.mem_cons.mpr (Or.inl same)
        · exact Or.inr (List.mem_cons_of_mem _ later)
      · rintro other given
        have early : map.lookup key = some other ∨ (key, other) = item → other ≤ value := by
          intro first
          obtain ⟨most, merged, bound⟩ := exists_lookup_mergeMax first
          exact bound.trans (above (Or.inl merged))
        rcases given with held | member
        · exact early (Or.inl held)
        · rcases List.mem_cons.mp member with same | later
          · exact early (Or.inr same)
          · exact above (Or.inr later)
    · rintro ⟨attained, above⟩
      have merged : ∀ other, (map.mergeMax item).lookup key = some other → other ≤ value := by
        intro other isOther
        refine above ((lookup_mergeMax_iff.mp isOther).1.imp_right fun same => ?_)
        exact List.mem_cons.mpr (Or.inl same)
      refine ⟨?_, ?_⟩
      · have early : map.lookup key = some value ∨ (key, value) = item →
            (map.mergeMax item).lookup key = some value ∨ (key, value) ∈ rest := by
          intro first
          obtain ⟨most, isMost, bound⟩ := exists_lookup_mergeMax first
          rw [isMost, le_antisymm bound (merged most isMost)]
          exact Or.inl rfl
        rcases attained with held | member
        · exact early (Or.inl held)
        · rcases List.mem_cons.mp member with same | later
          · exact early (Or.inr same)
          · exact Or.inr later
      · rintro other (isOther | later)
        · exact merged other isOther
        · exact above (Or.inr (List.mem_cons_of_mem _ later))

theorem exists_lookup_foldl_mergeMax (items : List (κ × α)) (map : HashMap κ α) {key : κ} {value : α}
    (given : map.lookup key = some value ∨ (key, value) ∈ items) :
    ∃ most, (items.foldl mergeMax map).lookup key = some most ∧ value ≤ most := by
  induction items generalizing map value with
  | nil => exact ⟨value, given.resolve_right List.not_mem_nil, le_rfl⟩
  | cons item rest ih =>
    rw [List.foldl_cons]
    have early : map.lookup key = some value ∨ (key, value) = item →
        ∃ most, (rest.foldl mergeMax (map.mergeMax item)).lookup key = some most ∧ value ≤ most := by
      intro first
      obtain ⟨most, merged, bound⟩ := exists_lookup_mergeMax first
      obtain ⟨last, isLast, above⟩ := ih _ (Or.inl merged)
      exact ⟨last, isLast, bound.trans above⟩
    rcases given with held | member
    · exact early (Or.inl held)
    · rcases List.mem_cons.mp member with same | later
      · exact early (Or.inr same)
      · exact ih _ (Or.inr later)

end Cloudbreak.ToMathlib.HashMap
