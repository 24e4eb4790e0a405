import Cloudbreak.Model.SelfHealing.Detector

/-! # Neighbours in a single chain -/

namespace Cloudbreak.Model.SelfHealing

namespace SingleChain

variable {chain : SingleChain} {block other : ChainBlock}

/-- One block of a chain is the parent of another. -/
def IsParent (parent child : ChainBlock) : Prop :=
  child.parentSlot = parent.slot ∧ child.parentBlockhash = parent.blockhash

theorem ascending (chain : SingleChain) : (chain.blocks.map ChainBlock.slot).Pairwise (· < ·) := by
  have steps : (chain.blocks.map ChainBlock.slot).IsChain (· < ·) :=
    (List.isChain_map _).mpr (chain.linked.imp fun _ _ link => link.1)
  exact steps.pairwise

/-- A slot has one block. -/
theorem eq_of_slot_eq (isBlock : block ∈ chain.blocks) (isOther : other ∈ chain.blocks)
    (same : block.slot = other.slot) : block = other :=
  List.inj_on_of_nodup_map (chain.ascending.imp ne_of_lt) isBlock isOther same

/-- A block is the lowest, or its parent is the block next below it. -/
theorem lowest_or_parent (isBlock : block ∈ chain.blocks) :
    (∀ other ∈ chain.blocks, block.slot ≤ other.slot) ∨
      ∃ parent ∈ chain.blocks, parent.slot < block.slot ∧ IsParent parent block ∧
        ∀ other ∈ chain.blocks, other.slot < block.slot → other.slot ≤ parent.slot := by
  obtain ⟨before, after, whole⟩ := List.append_of_mem isBlock
  have sorted := chain.ascending
  have linked := chain.linked
  rw [whole, List.map_append, List.map_cons, List.pairwise_append] at sorted
  rw [whole] at linked
  obtain ⟨beforeSorted, fromBlock, across⟩ := sorted
  have above : ∀ other ∈ after, block.slot < other.slot := fun other member =>
    (List.pairwise_cons.mp fromBlock).1 _ (List.mem_map_of_mem member)
  rcases List.eq_nil_or_concat before with rfl | ⟨earlier, parent, rfl⟩
  · left
    intro other member
    rw [whole, List.nil_append] at member
    rcases List.mem_cons.mp member with rfl | later
    · exact le_rfl
    · exact (above other later).le
  · right
    rw [List.concat_eq_append] at *
    have link := (List.isChain_append.mp linked).2.2 parent (by simp) block (by simp)
    refine ⟨parent, by simp [whole], link.1, link.2, fun other member less => ?_⟩
    rw [whole] at member
    rcases List.mem_append.mp member with low | high
    · rcases List.mem_append.mp low with earliest | isParent
      · rw [List.map_append, List.map_singleton, List.pairwise_append] at beforeSorted
        exact (beforeSorted.2.2 _ (List.mem_map_of_mem earliest) _ (by simp)).le
      · rw [List.mem_singleton.mp isParent]
    · rcases List.mem_cons.mp high with rfl | later
      · omega
      · have := above other later
        omega

/-- Of two blocks the higher names the lower as its parent exactly when none stands between them. -/
theorem isParent_iff_adjacent (isBlock : block ∈ chain.blocks) (isOther : other ∈ chain.blocks)
    (less : other.slot < block.slot) :
    IsParent other block ↔ ∀ between ∈ chain.blocks, other.slot < between.slot → block.slot ≤ between.slot := by
  rcases lowest_or_parent isBlock with lowest | ⟨parent, isMember, below, link, nearest⟩
  · have := lowest other isOther
    omega
  · constructor
    · intro named between isBetween higher
      by_contra lower
      have := nearest between isBetween (Nat.lt_of_not_le lower)
      have := named.1.symm.trans link.1
      omega
    · intro none_
      have close := nearest other isOther less
      have same : other = parent := by
        refine eq_of_slot_eq isOther isMember (le_antisymm close ?_)
        by_contra higher
        have := none_ parent isMember (Nat.lt_of_not_le higher)
        omega
      exact same ▸ link

end SingleChain

end Cloudbreak.Model.SelfHealing
