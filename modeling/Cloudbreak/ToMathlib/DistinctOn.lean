import Cloudbreak.ToMathlib.Newest

/-! # One row for every key

`DISTINCT ON` over a key, of items ordered by the key and then by a descending stamp, keeps the first item of
every run of equal keys: one item for each key, and a newest one. Ties are kept in the order of the input.
-/

namespace Cloudbreak.ToMathlib

variable {ι κ τ : Type*} [LinearOrder κ] [LinearOrder τ] {key : ι → κ} {stamp : ι → τ} {items : List ι}

/-- The items whose key differs from the one before them. -/
def firstOfRuns (key : ι → κ) : Option κ → List ι → List ι
  | _, [] => []
  | last, item :: rest =>
    if last = some (key item) then firstOfRuns key last rest else item :: firstOfRuns key (some (key item)) rest

/-- `ORDER BY key, stamp DESC`. -/
def orderBy (key : ι → κ) (stamp : ι → τ) (items : List ι) : List ι :=
  items.insertionSort fun first second =>
    toLex (key first, OrderDual.toDual (stamp first)) ≤ toLex (key second, OrderDual.toDual (stamp second))

def distinctOn (key : ι → κ) (stamp : ι → τ) (items : List ι) : List ι :=
  firstOfRuns key none (orderBy key stamp items)

/-- Exactly one item for each key of the list, and a newest one. -/
structure OneNewest (key : ι → κ) (stamp : ι → τ) (items kept : List ι) : Prop where
  subset : kept ⊆ items
  distinct : (kept.map key).Nodup
  newest : ∀ item ∈ kept, IsNewest key stamp items item
  complete : ∀ item ∈ items, ∃ other ∈ kept, key other = key item

theorem firstOfRuns_subset (last : Option κ) (items : List ι) : firstOfRuns key last items ⊆ items := by
  induction items generalizing last with
  | nil => exact List.Subset.refl _
  | cons item rest ih =>
    rw [firstOfRuns]
    split
    · exact List.subset_cons_of_subset _ (ih last)
    · exact List.cons_subset_cons _ (ih _)

/-- Over ascending keys a key that was left behind does not come again. -/
theorem firstOfRuns_spec
    (sorted : items.Pairwise fun first second =>
      toLex (key first, OrderDual.toDual (stamp first)) ≤ toLex (key second, OrderDual.toDual (stamp second)))
    {last : Option κ} (above : ∀ before ∈ last, ∀ item ∈ items, before ≤ key item) :
    (∀ item ∈ firstOfRuns key last items, last ≠ some (key item)) ∧
      ((firstOfRuns key last items).map key).Nodup ∧
      (∀ item ∈ firstOfRuns key last items, IsNewest key stamp items item) ∧
      ∀ item ∈ items, last = some (key item) ∨ ∃ other ∈ firstOfRuns key last items, key other = key item := by
  induction items generalizing last with
  | nil =>
    exact ⟨fun _ member => by contradiction, List.nodup_nil, fun _ member => by contradiction,
      fun _ member => by contradiction⟩
  | cons item rest ih =>
    obtain ⟨first, sorted⟩ := List.pairwise_cons.mp sorted
    rw [firstOfRuns]
    split
    · next same =>
      obtain ⟨differs, distinct, newest, complete⟩ :=
        ih sorted fun before held other member => above before held other (List.mem_cons_of_mem _ member)
      refine ⟨differs, distinct, fun kept member other present equal => ?_, fun other member => ?_⟩
      · rcases List.mem_cons.mp present with rfl | later
        · exact absurd (same.trans (congrArg some equal)) (differs kept member)
        · exact newest kept member other later equal
      · rcases List.mem_cons.mp member with rfl | later
        · exact Or.inl same
        · exact complete other later
    · next differs =>
      have keys : ∀ other ∈ rest, key item ≤ key other := fun other member => by
        rcases Prod.Lex.le_iff.mp (first other member) with less | ⟨same, _⟩
        · exact less.le
        · exact le_of_eq same
      obtain ⟨differsRest, distinct, newest, complete⟩ := @ih sorted (some (key item))
        fun before held other member => Option.some.inj held ▸ keys other member
      refine ⟨fun kept member => ?_, ?_, fun kept member other present equal => ?_, fun other member => ?_⟩
      · rcases List.mem_cons.mp member with rfl | later
        · exact differs
        · intro same
          have low := above (key kept) same item List.mem_cons_self
          have high := keys kept (firstOfRuns_subset _ _ later)
          exact differsRest kept later (congrArg some (le_antisymm high low))
      · rw [List.map_cons, List.nodup_cons]
        refine ⟨fun listed => ?_, distinct⟩
        obtain ⟨kept, member, same⟩ := List.mem_map.mp listed
        exact differsRest kept member (congrArg some same.symm)
      · rcases List.mem_cons.mp member with rfl | later
        · rcases List.mem_cons.mp present with rfl | otherLater
          · exact le_rfl
          · rcases Prod.Lex.le_iff.mp (first other otherLater) with less | ⟨_, older⟩
            · exact absurd equal (ne_of_gt less)
            · exact older
        · rcases List.mem_cons.mp present with rfl | otherLater
          · exact absurd (congrArg some equal) (differsRest kept later)
          · exact newest kept later other otherLater equal
      · rcases List.mem_cons.mp member with rfl | later
        · exact Or.inr ⟨other, List.mem_cons_self, rfl⟩
        · rcases complete other later with same | ⟨kept, isKept, same⟩
          · exact Or.inr ⟨item, List.mem_cons_self, Option.some.inj same⟩
          · exact Or.inr ⟨kept, List.mem_cons_of_mem _ isKept, same⟩

theorem oneNewest_distinctOn (key : ι → κ) (stamp : ι → τ) (items : List ι) :
    OneNewest key stamp items (distinctOn key stamp items) := by
  have permuted : (orderBy key stamp items).Perm items := List.perm_insertionSort _ items
  have sorted := List.pairwise_insertionSort (fun first second : ι =>
    toLex (key first, OrderDual.toDual (stamp first)) ≤ toLex (key second, OrderDual.toDual (stamp second))) items
  obtain ⟨-, distinct, newest, complete⟩ := @firstOfRuns_spec _ _ _ _ _ key stamp (orderBy key stamp items) sorted none
    fun before held => by contradiction
  refine ⟨fun item member => permuted.subset (firstOfRuns_subset _ _ member), distinct, fun item member => ?_,
    fun item member => (complete item (permuted.symm.subset member)).resolve_left (by simp)⟩
  exact (IsNewest.perm permuted).mp (newest item member)

omit [LinearOrder κ] in
theorem OneNewest.perm {others kept : List ι} (one : OneNewest key stamp items kept) (permuted : items.Perm others) :
    OneNewest key stamp others kept where
  subset := fun _ member => permuted.subset (one.subset member)
  distinct := one.distinct
  newest := fun item member => (IsNewest.perm permuted).mp (one.newest item member)
  complete := fun item member => one.complete item (permuted.symm.subset member)

/-- Where a filter keeps every newest item, one newest item of each kept key is a newest of all. -/
theorem OneNewest.of_filter {kept : List ι} {keep : ι → Bool} (one : OneNewest key stamp (items.filter keep) kept)
    (within : κ → Prop) (keys : ∀ item, keep item = true → within (key item))
    (newestKept : ∀ item ∈ items, within (key item) → IsNewest key stamp items item → keep item = true) :
    (∀ item ∈ kept, item ∈ items ∧ within (key item) ∧ IsNewest key stamp items item) ∧
      ∀ item ∈ items, within (key item) → ∃ other ∈ kept, key other = key item := by
  have keptNewest : ∀ item ∈ items, within (key item) → ∃ other ∈ items.filter keep,
      key other = key item ∧ IsNewest key stamp items other := by
    intro item member inside
    obtain ⟨other, present, same, newest⟩ := @exists_isNewest _ _ _ _ key stamp items item _ member
    exact ⟨other, List.mem_filter.mpr ⟨present, newestKept other present (same ▸ inside) newest⟩, same, newest⟩
  refine ⟨fun item member => ?_, fun item member inside => ?_⟩
  · obtain ⟨present, isKept⟩ := List.mem_filter.mp (one.subset member)
    refine ⟨present, keys item isKept, fun other otherMember same => ?_⟩
    obtain ⟨best, isBest, sameBest, newest⟩ := keptNewest item present (keys item isKept)
    exact (newest other otherMember (same.trans sameBest.symm)).trans (one.newest item member best isBest sameBest)
  · obtain ⟨other, present, same, -⟩ := keptNewest item member inside
    obtain ⟨best, isBest, sameBest⟩ := one.complete other present
    exact ⟨best, isBest, sameBest.trans same⟩

end Cloudbreak.ToMathlib
