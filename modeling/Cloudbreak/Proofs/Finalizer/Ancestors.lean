import Cloudbreak.Model.Finalizer.Finalizer
import Cloudbreak.Proofs.SelfHealing.Chain

/-! # What the ancestor walk collects

Where every waiting block has all the chain blocks between it and a slot waiting with chain data, the walk
down from that slot collects exactly the waiting slots below it and removes them from the map.
-/

namespace Cloudbreak.Model.Finalizer

open Cloudbreak.ToMathlib
open SelfHealing (ChainBlock SingleChain)
open SelfHealing.SingleChain (IsParent)

/-- An entry with the chain data of a block. -/
def BlockEntry.IsLive (block : ChainBlock) (entry : BlockEntry) : Prop :=
  entry.blockhash = block.blockhash ∧ entry.parentSlot = block.parentSlot ∧
    entry.parentBlockhash = block.parentBlockhash

instance (block : ChainBlock) (entry : BlockEntry) : Decidable (entry.IsLive block) :=
  inferInstanceAs (Decidable (_ ∧ _))

namespace FinalizerInner

variable {chain : SingleChain} {blocks : HashMap ℕ BlockEntry} {inner : FinalizerInner} {block : ChainBlock}
  {slot parentSlot : ℕ} {parentHash : String}

/-- From a block that waits below a slot, every chain block up to the slot waits with its chain data. -/
def Reaches (chain : SingleChain) (blocks : HashMap ℕ BlockEntry) (slot : ℕ) : Prop :=
  ∀ waiting ∈ blocks, waiting < slot → ∀ block ∈ chain.blocks, waiting ≤ block.slot → block.slot ≤ slot →
    ∃ entry, blocks.lookup block.slot = some entry ∧ entry.IsLive block

instance (chain : SingleChain) (blocks : HashMap ℕ BlockEntry) (slot : ℕ) : Decidable (Reaches chain blocks slot) :=
  decidable_of_iff
    (∀ waiting ∈ blocks.keys, waiting < slot → ∀ block ∈ chain.blocks, waiting ≤ block.slot → block.slot ≤ slot →
      (blocks.lookup block.slot).any (fun entry => decide (entry.IsLive block)) = true)
    (by simp only [Option.any_eq_true, decide_eq_true_eq, AList.mem_keys, Reaches])

/-- The same for the chain blocks strictly below the slot. -/
def Contiguous (chain : SingleChain) (blocks : HashMap ℕ BlockEntry) (slot : ℕ) : Prop :=
  ∀ waiting ∈ blocks, ∀ block ∈ chain.blocks, waiting ≤ block.slot → block.slot < slot →
    ∃ entry, blocks.lookup block.slot = some entry ∧ entry.IsLive block

/-- Only slots of the chain wait. -/
def OnChain (chain : SingleChain) (blocks : HashMap ℕ BlockEntry) : Prop :=
  ∀ waiting ∈ blocks, ∃ block ∈ chain.blocks, block.slot = waiting

theorem mem_iff_lookup : slot ∈ blocks ↔ ∃ entry, blocks.lookup slot = some entry := by
  rw [← AList.lookup_isSome, Option.isSome_iff_exists]

theorem OnChain.erase (onChain : OnChain chain blocks) (slot : ℕ) : OnChain chain (blocks.erase slot) :=
  fun waiting member => onChain waiting (AList.mem_erase.mp member).2

/-- Without a block, what lies below it is as contiguous as before. -/
theorem Contiguous.erase {upper : ℕ} (contiguous : Contiguous chain blocks upper) (below : slot ≤ upper) :
    Contiguous chain (blocks.erase slot) slot := by
  intro waiting member other isOther above under
  obtain ⟨_, wasWaiting⟩ := AList.mem_erase.mp member
  obtain ⟨entry, found, isLive⟩ := contiguous waiting wasWaiting other isOther above (under.trans_le below)
  refine ⟨entry, ?_, isLive⟩
  rw [HashMap.lookup_erase, if_neg (by omega)]
  exact found

private theorem Reaches.contiguous_erase (reaches : Reaches chain blocks slot) :
    Contiguous chain (blocks.erase slot) slot := by
  intro waiting member other isOther above under
  obtain ⟨_, wasWaiting⟩ := AList.mem_erase.mp member
  obtain ⟨entry, found, isLive⟩ := reaches waiting wasWaiting (above.trans_lt under) other isOther above under.le
  refine ⟨entry, ?_, isLive⟩
  rw [HashMap.lookup_erase, if_neg (by omega)]
  exact found

/-- The slots the walk adds below a slot, and the map it leaves. -/
structure Collects (blocks : HashMap ℕ BlockEntry) (slot : ℕ) (before : List (ℕ × BlockEntry))
    (walked : List (ℕ × BlockEntry) × FinalizerInner) : Prop where
  slots : ∃ collected : List ℕ, walked.1.map Prod.fst = before.map Prod.fst ++ collected ∧
    collected.Pairwise (· > ·) ∧ ∀ lower, lower ∈ collected ↔ lower < slot ∧ lower ∈ blocks
  map : ∀ other, walked.2.blocks.lookup other = if other < slot then none else blocks.lookup other

private theorem collects_nothing (none_ : ∀ waiting ∈ inner.blocks, slot ≤ waiting)
    (before : List (ℕ × BlockEntry)) : Collects inner.blocks slot before (before, inner) where
  slots := by
    refine ⟨[], (List.append_nil _).symm, List.Pairwise.nil, fun lower => ?_⟩
    constructor
    · simp
    · rintro ⟨low, waiting⟩
      have := none_ lower waiting
      omega
  map := by
    intro other
    split
    · next low =>
      by_contra found
      obtain ⟨entry, isEntry⟩ := Option.ne_none_iff_exists'.mp found
      have := none_ other (mem_iff_lookup.mpr ⟨entry, isEntry⟩)
      omega
    · rfl

theorem walkParents_stop (stops : ∀ parent, inner.blocks.lookup parentSlot = some parent →
    ¬(parentHash ≠ "" ∧ parent.blockhash = parentHash)) (before : List (ℕ × BlockEntry)) :
    inner.walkParents parentSlot parentHash before = (before, inner) := by
  rw [walkParents]
  split
  · rfl
  · next parent found => rw [if_neg (stops parent found)]

theorem walkParents_parent {parent : BlockEntry} (found : inner.blocks.lookup parentSlot = some parent)
    (named : parentHash ≠ "") (same : parent.blockhash = parentHash) (before : List (ℕ × BlockEntry)) :
    inner.walkParents parentSlot parentHash before =
      walkParents
        { inner with
          blocks := inner.blocks.erase parentSlot
          pending := inner.pending.erase parentSlot }
        parent.parentSlot parent.parentBlockhash (before ++ [(parentSlot, parent)]) := by
  rw [walkParents]
  split
  · next missing =>
    rw [found] at missing
    contradiction
  · next other isOther =>
    obtain rfl : other = parent := Option.some.inj (isOther.symm.trans found)
    rw [if_pos ⟨named, same⟩]

/-- The walk queues nothing. -/
theorem mem_pending_of_walkParents {before : List (ℕ × BlockEntry)}
    (member : slot ∈ (inner.walkParents parentSlot parentHash before).2.pending) : slot ∈ inner.pending := by
  induction size : inner.blocks.entries.length using Nat.strong_induction_on
    generalizing inner parentSlot parentHash before with
  | _ count ih =>
    rw [walkParents] at member
    split at member
    · exact member
    · next parent found =>
      split at member
      · exact Finset.mem_of_mem_erase (ih _ (size ▸ length_erase_lt found) member rfl)
      · exact member

/-- The walk from a block that itself no longer waits. -/
theorem collects_walkParents (isBlock : block ∈ chain.blocks) (gone : block.slot ∉ inner.blocks)
    (onChain : OnChain chain inner.blocks) (contiguous : Contiguous chain inner.blocks block.slot)
    (before : List (ℕ × BlockEntry)) :
    Collects inner.blocks block.slot before
      (inner.walkParents block.parentSlot block.parentBlockhash before) := by
  induction size : inner.blocks.entries.length using Nat.strong_induction_on
    generalizing inner block before with
  | _ count ih =>
    -- a block with nothing waiting below it ends the walk, as its parent does not wait
    have ends : (∀ waiting ∈ inner.blocks, block.slot ≤ waiting) →
        Collects inner.blocks block.slot before
          (inner.walkParents block.parentSlot block.parentBlockhash before) := by
      intro none_
      have noParent : block.parentSlot ∉ inner.blocks := by
        intro waiting
        have same := le_antisymm (chain.rooted block isBlock) (none_ _ waiting)
        exact gone (same ▸ waiting)
      rw [walkParents_stop fun parent found => absurd (mem_iff_lookup.mpr ⟨parent, found⟩) noParent]
      exact collects_nothing none_ before
    rcases SingleChain.lowest_or_parent isBlock with lowest | ⟨parent, isParent, below, link, nearest⟩
    · refine ends fun waiting member => ?_
      obtain ⟨other, isOther, rfl⟩ := onChain waiting member
      exact lowest other isOther
    · have belowParent : ∀ waiting ∈ inner.blocks, waiting < block.slot → waiting ≤ parent.slot := by
        intro waiting member under
        obtain ⟨other, isOther, rfl⟩ := onChain waiting member
        exact nearest other isOther under
      cases found : inner.blocks.lookup parent.slot with
      | none =>
        refine ends fun waiting member => ?_
        by_contra under
        obtain ⟨entry, isEntry, _⟩ := contiguous waiting member parent isParent
          (belowParent waiting member (Nat.lt_of_not_le under)) below
        rw [found] at isEntry
        contradiction
      | some entry =>
        have waits : parent.slot ∈ inner.blocks := mem_iff_lookup.mpr ⟨entry, found⟩
        obtain ⟨live, isLive, hash, slotIs, hashIs⟩ := contiguous parent.slot waits parent isParent le_rfl below
        rw [found, Option.some.injEq] at isLive
        subst isLive
        rw [link.1, link.2, walkParents_parent found (chain.hashed parent isParent) hash, slotIs, hashIs]
        let rest : FinalizerInner :=
          { inner with
            blocks := inner.blocks.erase parent.slot
            pending := inner.pending.erase parent.slot }
        have smaller : rest.blocks.entries.length < count := size ▸ length_erase_lt found
        obtain ⟨⟨collected, areSlots, descending, members⟩, map⟩ := ih _ smaller isParent (fun member => (AList.mem_erase.mp member).1 rfl)
          (onChain.erase parent.slot) (contiguous.erase below.le) (before ++ [(parent.slot, entry)]) rfl
        constructor
        · refine ⟨parent.slot :: collected, ?_, ?_, fun lower => ?_⟩
          · rw [areSlots, List.map_append, List.map_singleton, List.append_assoc, List.singleton_append]
          · exact List.pairwise_cons.mpr ⟨fun lower member => ((members lower).mp member).1, descending⟩
          · rw [List.mem_cons, members, AList.mem_erase]
            constructor
            · rintro (rfl | ⟨low, _, waiting⟩)
              · exact ⟨below, waits⟩
              · exact ⟨low.trans below, waiting⟩
            · rintro ⟨low, waiting⟩
              rcases (belowParent lower waiting low).eq_or_lt with same | under
              · exact Or.inl same
              · exact Or.inr ⟨under, under.ne, waiting⟩
        · intro other
          rw [map other, HashMap.lookup_erase]
          rcases lt_trichotomy other parent.slot with under | rfl | above
          · rw [if_pos under, if_pos (under.trans below)]
          · rw [if_neg (lt_irrefl _), if_pos rfl, if_pos below]
          · rw [if_neg above.not_gt, if_neg above.ne']
            split
            · next low =>
              refine HashMap.lookup_of_not_mem fun waiting => ?_
              have := belowParent other waiting low
              omega
            · rfl

/-- The chain data of a waiting entry is that of its block, or it has none. -/
def Typed (chain : SingleChain) (blocks : HashMap ℕ BlockEntry) : Prop :=
  ∀ slot entry, blocks.lookup slot = some entry →
    entry.parentBlockhash = "" ∨ ∃ block ∈ chain.blocks, block.slot = slot ∧ entry.IsLive block

/-- A slot is finalized after exactly the waiting slots below it, and no slot up to it waits any more. -/
theorem getSlotAncestors_collects (isBlock : block ∈ chain.blocks) (onChain : OnChain chain inner.blocks)
    (typed : Typed chain inner.blocks) (reaches : Reaches chain inner.blocks block.slot) :
    (∃ lower : List ℕ, (inner.getSlotAncestors block.slot).1.map Prod.fst = lower ++ [block.slot] ∧
      lower.Pairwise (· < ·) ∧ ∀ slot, slot ∈ lower ↔ slot < block.slot ∧ slot ∈ inner.blocks) ∧
    ∀ other, (inner.getSlotAncestors block.slot).2.blocks.lookup other =
      if other ≤ block.slot then none else inner.blocks.lookup other := by
  let entry := (inner.blocks.lookup block.slot).getD .default
  let rest : FinalizerInner := { inner with blocks := inner.blocks.erase block.slot }
  have gone : block.slot ∉ rest.blocks := fun member => (AList.mem_erase.mp member).1 rfl
  have walked : Collects rest.blocks block.slot [(block.slot, entry)]
      (rest.walkParents entry.parentSlot entry.parentBlockhash [(block.slot, entry)]) := by
    by_cases lower : ∃ waiting ∈ inner.blocks, waiting < block.slot
    · obtain ⟨waiting, member, under⟩ := lower
      obtain ⟨live, found, hash, slotIs, hashIs⟩ := reaches waiting member under block isBlock under.le le_rfl
      have same : entry = live := by simp only [entry, found, Option.getD_some]
      rw [same, slotIs, hashIs]
      exact collects_walkParents isBlock gone (onChain.erase _) reaches.contiguous_erase _
    · push Not at lower
      have none_ : ∀ waiting ∈ rest.blocks, block.slot ≤ waiting := fun waiting member =>
        lower waiting (AList.mem_erase.mp member).2
      rw [walkParents_stop]
      · exact collects_nothing none_ _
      · rintro parent isParent ⟨named, _⟩
        -- only an entry with chain data names a parent, and that one lies below
        have waits := mem_iff_lookup.mpr ⟨parent, isParent⟩
        have above := none_ _ waits
        cases found : inner.blocks.lookup block.slot with
        | none => simp [entry, found, BlockEntry.default] at named
        | some held =>
          have same : entry = held := by simp only [entry, found, Option.getD_some]
          rcases typed _ _ found with unnamed | ⟨other, isOther, _, _, slotIs, _⟩
          · exact named (same ▸ unnamed)
          · have := chain.rooted other isOther
            have : entry.parentSlot = block.slot := by
              rw [same] at above ⊢
              omega
            exact gone (this ▸ waits)
  obtain ⟨⟨collected, areSlots, descending, members⟩, map⟩ := walked
  constructor
  · refine ⟨collected.reverse, ?_, List.pairwise_reverse.mpr descending, fun slot => ?_⟩
    · change ((rest.walkParents entry.parentSlot entry.parentBlockhash [(block.slot, entry)]).1.reverse).map
        Prod.fst = _
      rw [List.map_reverse, areSlots, List.map_singleton, List.singleton_append, List.reverse_cons]
    · rw [List.mem_reverse, members, AList.mem_erase]
      exact ⟨fun held => ⟨held.1, held.2.2⟩, fun held => ⟨held.1, held.1.ne, held.2⟩⟩
  · intro other
    refine (map other).trans ?_
    rw [HashMap.lookup_erase]
    rcases lt_trichotomy other block.slot with under | rfl | above
    · rw [if_pos under, if_pos under.le]
    · rw [if_neg (lt_irrefl _), if_pos rfl, if_pos le_rfl]
    · rw [if_neg above.not_gt, if_neg above.ne', if_neg above.not_ge]

theorem mem_pending_of_getSlotAncestors {other : ℕ} (member : other ∈ (inner.getSlotAncestors slot).2.pending) :
    other ∈ inner.pending := by
  have queued : other ∈ FinalizerInner.pending { inner with blocks := inner.blocks.erase slot } :=
    mem_pending_of_walkParents member
  exact queued

end FinalizerInner

end Cloudbreak.Model.Finalizer
