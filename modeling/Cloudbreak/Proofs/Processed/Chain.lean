import Cloudbreak.Model.Processed.Store

/-! # The blocks a served chain consists of

The walk from the head and the ancestry of the confirmed block are both chains of stored parents, and they
meet at the anchor. Everything a reader relies on follows from that one chain.
-/

namespace Cloudbreak.Model.Processed

open Cloudbreak.ToMathlib

namespace BlockStore

variable {store : BlockStore} {anchor : Anchor} {block last head parent : SlotBlock} {blocks : List SlotBlock}

/-- The stored parent of a block. -/
def Parent (store : BlockStore) (child parent : SlotBlock) : Prop := store.parentOf child = some parent

/-- A walk that reaches the anchor by parent link: every block above it from a first block down. -/
structure Descent (store : BlockStore) (anchor : Anchor) (block : SlotBlock) (blocks : List SlotBlock)
    (last : SlotBlock) : Prop where
  starts : blocks.head? = some block
  parents : blocks.IsChain store.Parent
  above : ∀ other ∈ blocks, anchor.confirmedSlot < other.slot
  ends : blocks.getLast? = some last
  anchored : last.parentSlot = anchor.confirmedSlot ∧ last.parentBlockhash = anchor.confirmedBlockhash

private theorem walkAbove_orphan (above : block.slot > anchor.confirmedSlot)
    (other : block.parentSlot ≠ anchor.confirmedSlot) (orphan : store.parentOf block = none) :
    store.walkAbove anchor block = none := by
  rw [walkAbove, if_pos above, if_neg other]
  split
  · rfl
  · next parent isParent =>
    rw [orphan] at isParent
    contradiction

private theorem walkAbove_parent (above : block.slot > anchor.confirmedSlot)
    (other : block.parentSlot ≠ anchor.confirmedSlot) (isParent : store.parentOf block = some parent) :
    store.walkAbove anchor block =
      (store.walkAbove anchor parent).map fun walked => (block :: walked.1, walked.2) := by
  rw [walkAbove, if_pos above, if_neg other]
  split
  · next orphan =>
    rw [orphan] at isParent
    contradiction
  · next found isFound =>
    obtain rfl : found = parent := Option.some.inj (isFound.symm.trans isParent)
    rfl

theorem Descent.cons (descent : store.Descent anchor parent blocks last)
    (above : block.slot > anchor.confirmedSlot) (isParent : store.parentOf block = some parent) :
    store.Descent anchor block (block :: blocks) last where
  starts := rfl
  parents := by
    refine List.isChain_cons.mpr ⟨fun next isNext => ?_, descent.parents⟩
    rw [descent.starts, Option.mem_def, Option.some.injEq] at isNext
    exact isNext ▸ isParent
  above := by
    intro entry member
    rcases List.mem_cons.mp member with rfl | later
    · exact above
    · exact descent.above entry later
  ends := by rw [List.getLast?_cons, descent.ends, Option.getD_some]
  anchored := descent.anchored

/-- A walk that stops at or above the anchor is a descent, or never left a block at or below it. -/
theorem descent_of_walkAbove (walked : store.walkAbove anchor block = some (blocks, last))
    (reached : anchor.confirmedSlot ≤ last.slot) :
    store.Descent anchor block blocks last ∨ blocks = [] ∧ last = block ∧ block.slot ≤ anchor.confirmedSlot := by
  induction block using walkAbove.induct store anchor generalizing blocks with
  | case1 block above parentIs differs =>
    rw [walkAbove, if_pos above, if_pos parentIs, if_pos differs] at walked
    contradiction
  | case2 block above parentIs same =>
    rw [walkAbove, if_pos above, if_pos parentIs, if_neg same] at walked
    cases walked
    exact Or.inl ⟨rfl, List.isChain_singleton _, by simpa using above, rfl, parentIs, not_ne_iff.mp same⟩
  | case3 block above parentIs orphan =>
    rw [walkAbove_orphan above parentIs orphan] at walked
    contradiction
  | case4 block above parentIs parent isParent ih =>
    rw [walkAbove_parent above parentIs isParent] at walked
    obtain ⟨⟨rest, final⟩, walkedRest, isWalk⟩ := Option.map_eq_some_iff.mp walked
    cases isWalk
    rcases ih walkedRest with descent | ⟨_, isParentBlock, low⟩
    · exact Or.inl (descent.cons above isParent)
    · -- a parent at the anchor ends the walk one block earlier
      rw [isParentBlock] at reached
      have atAnchor : parent.slot = anchor.confirmedSlot := le_antisymm low reached
      exact absurd ((slot_parentOf isParent).symm.trans atAnchor) parentIs
  | case5 block low =>
    rw [walkAbove, if_neg low] at walked
    cases walked
    exact Or.inr ⟨rfl, rfl, Nat.le_of_not_lt low⟩

theorem ancestry_orphan (orphan : store.parentOf block = none) : store.ancestry block = [block] := by
  rw [ancestry]
  split
  · rfl
  · next parent isParent =>
    rw [orphan] at isParent
    contradiction

theorem ancestry_parent (isParent : store.parentOf block = some parent) :
    store.ancestry block = block :: store.ancestry parent := by
  rw [ancestry]
  split
  · next orphan =>
    rw [orphan] at isParent
    contradiction
  · next found isFound =>
    obtain rfl : found = parent := Option.some.inj (isFound.symm.trans isParent)
    rfl

theorem head_ancestry (store : BlockStore) (block : SlotBlock) : (store.ancestry block).head? = some block := by
  cases isParent : store.parentOf block with
  | none => rw [ancestry_orphan isParent, List.head?_cons]
  | some parent => rw [ancestry_parent isParent, List.head?_cons]

theorem parents_ancestry (store : BlockStore) (block : SlotBlock) : (store.ancestry block).IsChain store.Parent := by
  induction block using ancestry.induct store with
  | case1 block orphan =>
    rw [ancestry_orphan orphan]
    exact List.isChain_singleton _
  | case2 block parent isParent ih =>
    rw [ancestry_parent isParent]
    refine List.isChain_cons.mpr ⟨fun next isNext => ?_, ih⟩
    rw [head_ancestry, Option.mem_def, Option.some.injEq] at isNext
    exact isNext ▸ isParent

/-- The ancestry is exactly the block and its stored parents, transitively. -/
theorem mem_ancestry_iff {other : SlotBlock} :
    other ∈ store.ancestry block ↔ Relation.ReflTransGen store.Parent block other := by
  constructor
  · intro member
    induction block using ancestry.induct store with
    | case1 block orphan =>
      rw [ancestry_orphan orphan, List.mem_singleton] at member
      exact member ▸ .refl
    | case2 block parent isParent ih =>
      rw [ancestry_parent isParent] at member
      rcases List.mem_cons.mp member with rfl | later
      · exact .refl
      · exact (ih later).head isParent
  · intro reaches
    induction reaches using Relation.ReflTransGen.head_induction_on with
    | refl => exact List.mem_of_mem_head? (head_ancestry store other)
    | head isParent _ ih =>
      rw [ancestry_parent isParent]
      exact List.mem_cons_of_mem _ ih

theorem slot_le_of_reaches {other : SlotBlock} (reaches : Relation.ReflTransGen store.Parent block other) :
    other.slot ≤ block.slot := by
  induction reaches with
  | refl => exact le_rfl
  | tail _ isParent ih => exact (parentOf_lt isParent).le.trans ih

/-- A chain of stored parents descends, and every block but the first is stored under its slot. -/
theorem pairwise_of_parents (parents : blocks.IsChain store.Parent) :
    (blocks.map SlotBlock.slot).Pairwise (· > ·) := by
  have descending : (blocks.map SlotBlock.slot).IsChain (· > ·) :=
    (List.isChain_map _).mpr (parents.imp fun _ _ isParent => parentOf_lt isParent)
  exact descending.pairwise

private theorem stored_of_parents (parents : blocks.IsChain store.Parent)
    (first : ∀ head, blocks.head? = some head → store.blocks.lookup head.slot = some head) :
    ∀ block ∈ blocks, store.blocks.lookup block.slot = some block := by
  induction blocks with
  | nil => simp
  | cons head rest ih =>
    obtain ⟨isParent, parents⟩ := List.isChain_cons.mp parents
    intro block member
    rcases List.mem_cons.mp member with rfl | later
    · exact first block rfl
    · refine ih parents (fun next isNext => ?_) block later
      have found := parentOf_eq_some.mp (isParent next isNext)
      rw [slot_parentOf (isParent next isNext)]
      exact found.2.1

theorem highest_eq_some (isHighest : store.highest = some head) :
    store.blocks.lookup head.slot = some head ∧ ∀ slot ∈ store.blocks.keys, slot ≤ head.slot := by
  obtain ⟨slot, isMax, found⟩ := Option.bind_eq_some_iff.mp isHighest
  have greatest := (List.max?_eq_some_iff.mp isMax).2
  rw [store.keyed slot head found]
  exact ⟨found, greatest⟩

/-- What a served chain is, seen from its store and anchor. -/
structure Served (store : BlockStore) (anchor : Anchor) (blocks : List SlotBlock) : Prop where
  stored : ∀ block ∈ blocks, store.blocks.lookup block.slot = some block
  descending : (blocks.map SlotBlock.slot).Pairwise (· > ·)
  linked : blocks.IsChain fun child parent =>
    parent.slot = child.parentSlot ∧ parent.blockhash = child.parentBlockhash
  highest : ∃ head, blocks.head? = some head ∧ ∀ slot ∈ store.blocks.keys, slot ≤ head.slot
  /-- The lowest block above the anchor names it as its parent, or the head is the confirmed block. -/
  anchored : (∃ lowest,
      (blocks.filter fun block => decide (anchor.confirmedSlot < block.slot)).getLast? = some lowest ∧
        lowest.parentSlot = anchor.confirmedSlot ∧ lowest.parentBlockhash = anchor.confirmedBlockhash) ∨
    ∃ head, blocks.head? = some head ∧ head.slot = anchor.confirmedSlot ∧
      head.blockhash = anchor.confirmedBlockhash
  /-- At or below the anchor stand the confirmed block and its stored linked parents. -/
  below : ∀ block, block ∈ blocks ∧ block.slot ≤ anchor.confirmedSlot ↔
    ∃ confirmed, store.find anchor.confirmedSlot anchor.confirmedBlockhash = some confirmed ∧
      Relation.ReflTransGen store.Parent confirmed block
  /-- Above the anchor the parent of every block is the anchor or stands in the chain. -/
  complete : ∀ block ∈ blocks, anchor.confirmedSlot < block.slot →
    block.parentSlot = anchor.confirmedSlot ∧ block.parentBlockhash = anchor.confirmedBlockhash ∨
      ∃ parent ∈ blocks, anchor.confirmedSlot < parent.slot ∧ store.parentOf block = some parent

private theorem filter_above_append {above below : List SlotBlock} {a : ℕ} (high : ∀ block ∈ above, a < block.slot)
    (low : ∀ block ∈ below, block.slot ≤ a) :
    (above ++ below).filter (fun block => decide (a < block.slot)) = above := by
  rw [List.filter_append, List.filter_eq_self.mpr (by simpa using high),
    List.filter_eq_nil_iff.mpr (by simpa using low), List.append_nil]

/-- Of a chain of parents every block but the last has its parent in it. -/
theorem parent_mem_of_parents (parents : blocks.IsChain store.Parent) (ends : blocks.getLast? = some last) :
    ∀ block ∈ blocks, block = last ∨ ∃ parent ∈ blocks, store.parentOf block = some parent := by
  induction blocks with
  | nil => simp
  | cons first rest ih =>
    obtain ⟨isParent, parents⟩ := List.isChain_cons.mp parents
    intro block member
    cases isRest : rest with
    | nil =>
      rw [isRest] at ends member
      left
      rw [List.mem_singleton.mp member]
      simpa using ends
    | cons second others =>
      rcases List.mem_cons.mp member with rfl | later
      · have found : store.parentOf block = some second := isParent second (by simp [isRest])
        exact Or.inr ⟨second, by simp, found⟩
      · have endsRest : rest.getLast? = some last := by
          rw [isRest] at ends ⊢
          rwa [List.getLast?_cons_cons] at ends
        rcases ih parents endsRest block later with same | ⟨parent, inRest, found⟩
        · exact Or.inl same
        · exact Or.inr ⟨parent, isRest ▸ List.mem_cons_of_mem _ inRest, found⟩

/-- A descent and the ancestry of the confirmed block make a served chain. -/
theorem Descent.served (descent : store.Descent anchor head blocks last) (isHighest : store.highest = some head) :
    store.Served anchor (blocks ++ (store.parentOf last).elim [] store.ancestry) := by
  obtain ⟨headStored, greatest⟩ := highest_eq_some isHighest
  have lastMem : last ∈ blocks := List.mem_of_getLast? descent.ends
  have isConfirmed : store.parentOf last = store.find anchor.confirmedSlot anchor.confirmedBlockhash := by
    have low : ¬last.parentSlot ≥ last.slot := by
      have := descent.above last lastMem
      have := descent.anchored.1
      omega
    rw [parentOf, if_neg low, descent.anchored.1, descent.anchored.2]
  have tailChain : ((store.parentOf last).elim [] store.ancestry).IsChain store.Parent := by
    cases store.parentOf last with
    | none => exact List.isChain_nil
    | some confirmed => exact parents_ancestry store confirmed
  have parents : (blocks ++ (store.parentOf last).elim [] store.ancestry).IsChain store.Parent := by
    refine List.isChain_append.mpr ⟨descent.parents, tailChain, fun lowest isLowest confirmed isFirst => ?_⟩
    rw [descent.ends, Option.mem_def, Option.some.injEq] at isLowest
    subst isLowest
    cases isParent : store.parentOf last with
    | none => simp [isParent] at isFirst
    | some parent =>
      rw [isParent, Option.elim_some, head_ancestry, Option.mem_def, Option.some.injEq] at isFirst
      exact isFirst ▸ isParent
  have mem_tail : ∀ block, block ∈ (store.parentOf last).elim [] store.ancestry ↔
      ∃ confirmed, store.find anchor.confirmedSlot anchor.confirmedBlockhash = some confirmed ∧
        Relation.ReflTransGen store.Parent confirmed block := by
    intro block
    rw [isConfirmed]
    cases store.find anchor.confirmedSlot anchor.confirmedBlockhash with
    | none => simp
    | some confirmed => simp [mem_ancestry_iff]
  have low : ∀ block ∈ (store.parentOf last).elim [] store.ancestry, block.slot ≤ anchor.confirmedSlot := by
    intro block member
    obtain ⟨confirmed, found, reaches⟩ := (mem_tail block).mp member
    rw [← store.keyed _ _ (find_eq_some.mp found).1]
    exact slot_le_of_reaches reaches
  have starts : (blocks ++ (store.parentOf last).elim [] store.ancestry).head? = some head := by
    rw [List.head?_append, descent.starts, Option.some_or]
  constructor
  case stored =>
    refine stored_of_parents parents fun first isFirst => ?_
    rw [starts, Option.some.injEq] at isFirst
    exact isFirst ▸ headStored
  case descending => exact pairwise_of_parents parents
  case linked =>
    exact parents.imp fun child parent isParent =>
      ⟨slot_parentOf isParent, (parentOf_eq_some.mp isParent).2.2⟩
  case highest => exact ⟨head, starts, greatest⟩
  case anchored =>
    left
    rw [filter_above_append descent.above low]
    exact ⟨last, descent.ends, descent.anchored⟩
  case below =>
    intro block
    rw [← mem_tail, List.mem_append]
    constructor
    · rintro ⟨high | below, bound⟩
      · exact absurd (descent.above block high) (Nat.not_lt.mpr bound)
      · exact below
    · exact fun below => ⟨Or.inr below, low block below⟩
  case complete =>
    intro block member high
    have isAbove : block ∈ blocks :=
      (List.mem_append.mp member).resolve_right fun below => absurd high (Nat.not_lt.mpr (low block below))
    rcases parent_mem_of_parents descent.parents descent.ends block isAbove with rfl | ⟨parent, inBlocks, found⟩
    · exact Or.inl descent.anchored
    · exact Or.inr ⟨parent, List.mem_append_left _ inBlocks, descent.above parent inBlocks, found⟩

/-- A head that is the confirmed block is served with its ancestry alone. -/
theorem served_at_anchor (isHighest : store.highest = some head) (atAnchor : head.slot = anchor.confirmedSlot)
    (found : store.find anchor.confirmedSlot anchor.confirmedBlockhash = some block) :
    store.Served anchor (store.ancestry block) := by
  obtain ⟨headStored, greatest⟩ := highest_eq_some isHighest
  obtain ⟨isStored, hash⟩ := find_eq_some.mp found
  have same : block = head := by
    rw [← atAnchor, headStored] at isStored
    exact (Option.some.inj isStored).symm
  subst same
  have low : ∀ other ∈ store.ancestry block, other.slot ≤ anchor.confirmedSlot := fun other member =>
    (slot_le_of_reaches (mem_ancestry_iff.mp member)).trans_eq atAnchor
  constructor
  case stored =>
    refine stored_of_parents (parents_ancestry store block) fun first isFirst => ?_
    rw [head_ancestry, Option.some.injEq] at isFirst
    exact isFirst ▸ headStored
  case descending => exact pairwise_of_parents (parents_ancestry store block)
  case linked =>
    exact (parents_ancestry store block).imp fun child parent isParent =>
      ⟨slot_parentOf isParent, (parentOf_eq_some.mp isParent).2.2⟩
  case highest => exact ⟨block, head_ancestry store block, greatest⟩
  case anchored => exact Or.inr ⟨block, head_ancestry store block, atAnchor, hash⟩
  case below =>
    intro other
    rw [mem_ancestry_iff]
    constructor
    · exact fun member => ⟨block, found, member.1⟩
    · rintro ⟨confirmed, isConfirmed, reaches⟩
      rw [found, Option.some.injEq] at isConfirmed
      subst isConfirmed
      exact ⟨reaches, low other (mem_ancestry_iff.mpr reaches)⟩
  case complete =>
    intro other member high
    exact absurd high (Nat.not_lt.mpr (low other member))

/-- The anchor and head a served chain was read from. -/
theorem latestChainedBlocks_eq_some {served : ProcessedBlocks} (serves : store.latestChainedBlocks = some served) :
    ∃ anchor head, store.anchor = some anchor ∧ store.highest = some head ∧
      (∀ until_, store.conflictUntil = some until_ → until_ < anchor.confirmedSlot) ∧
      served.anchorSlot = anchor.confirmedSlot ∧ served.slot = head.slot ∧ store.Served anchor served.blocks := by
  rw [latestChainedBlocks] at serves
  obtain ⟨anchor, isAnchor, serves⟩ := Option.bind_eq_some_iff.mp serves
  cases open_ : store.conflictUntil.any fun until_ => decide (anchor.confirmedSlot ≤ until_) with
  | true =>
    rw [if_pos open_] at serves
    contradiction
  | false =>
    rw [if_neg (by simp [open_])] at serves
    obtain ⟨head, isHead, serves⟩ := Option.bind_eq_some_iff.mp serves
    obtain ⟨blockTime, _, serves⟩ := Option.bind_eq_some_iff.mp serves
    obtain ⟨⟨above, last⟩, walked, serves⟩ := Option.bind_eq_some_iff.mp serves
    obtain ⟨below, isBelow, serves⟩ := Option.bind_eq_some_iff.mp serves
    cases serves
    refine ⟨anchor, head, isAnchor, isHead, ?_, rfl, rfl, ?_⟩
    · intro until_ isUntil
      simpa [isUntil] using open_
    · dsimp only at isBelow ⊢
      rw [atAnchor] at isBelow
      by_cases high : last.slot > anchor.confirmedSlot
      · rw [if_pos high, Option.some.injEq] at isBelow
        subst isBelow
        rcases descent_of_walkAbove walked high.le with descent | ⟨rfl, rfl, low⟩
        · exact descent.served isHead
        · omega
      · rw [if_neg high] at isBelow
        by_cases level : last.slot = anchor.confirmedSlot
        · rw [if_pos level] at isBelow
          obtain ⟨confirmed, found, rfl⟩ := Option.map_eq_some_iff.mp isBelow
          rcases descent_of_walkAbove walked level.ge with descent | ⟨rfl, rfl, _⟩
          · exact absurd (descent.above last (List.mem_of_getLast? descent.ends)) high
          · exact served_at_anchor isHead level found
        · rw [if_neg level] at isBelow
          contradiction

end BlockStore

end Cloudbreak.Model.Processed
