import Cloudbreak.Proofs.Finalizer.Ancestors

/-! # The ancestor walk over any recorded blocks

Nothing is assumed about the parents the blocks name: they may skip slots, form a cycle or name the block
itself. The walk takes each block it adds out of the map, so it ends, never meets a slot twice and stops
where no other recorded block is the named parent.
-/

namespace Cloudbreak.Model.Finalizer

open Cloudbreak.ToMathlib

/-- The entry names a slot and the hash of its block as its parent. An empty hash names none. -/
def BlockEntry.IsChildOf (child : BlockEntry) (parentSlot : ℕ) (parent : BlockEntry) : Prop :=
  child.parentSlot = parentSlot ∧ child.parentBlockhash ≠ "" ∧ parent.blockhash = child.parentBlockhash

instance (child : BlockEntry) (parentSlot : ℕ) (parent : BlockEntry) :
    Decidable (child.IsChildOf parentSlot parent) :=
  inferInstanceAs (Decidable (_ ∧ _ ∧ _))

namespace FinalizerInner

variable {blocks : HashMap ℕ BlockEntry} {inner : FinalizerInner} {item : ℕ × BlockEntry}

/-- A chain of parents, the newest first, of blocks taken out of a map. The first may be unrecorded. -/
structure Follows (blocks : HashMap ℕ BlockEntry) (chain : List (ℕ × BlockEntry)) (inner : FinalizerInner) :
    Prop where
  distinct : (chain.map Prod.fst).Nodup
  linked : chain.IsChain fun newer older => newer.2.IsChildOf older.1 older.2
  recorded : ∀ item ∈ chain.tail, blocks.lookup item.1 = some item.2
  left : ∀ other, inner.blocks.lookup other = if other ∈ chain.map Prod.fst then none else blocks.lookup other

/-- A parent found in the map extends the chain. -/
theorem Follows.parent {before : List (ℕ × BlockEntry)} (follows : Follows blocks (before ++ [item]) inner)
    {parent : BlockEntry} (found : inner.blocks.lookup item.2.parentSlot = some parent)
    (named : item.2.parentBlockhash ≠ "") (same : parent.blockhash = item.2.parentBlockhash) :
    Follows blocks (before ++ [item] ++ [(item.2.parentSlot, parent)])
      { inner with
        blocks := inner.blocks.erase item.2.parentSlot
        pending := inner.pending.erase item.2.parentSlot } := by
  have left := follows.left item.2.parentSlot
  rw [found] at left
  have fresh : item.2.parentSlot ∉ (before ++ [item]).map Prod.fst := by
    intro taken
    rw [if_pos taken] at left
    contradiction
  rw [if_neg fresh] at left
  have grown : (before ++ [item] ++ [(item.2.parentSlot, parent)]).map Prod.fst =
      (before ++ [item]).map Prod.fst ++ [item.2.parentSlot] := List.map_append
  constructor
  · rw [grown, List.nodup_append]
    refine ⟨follows.distinct, List.nodup_singleton _, fun slot taken other isParent => ?_⟩
    rintro rfl
    exact fresh (List.mem_singleton.mp isParent ▸ taken)
  · rw [List.isChain_append]
    refine ⟨follows.linked, List.isChain_singleton _, fun newer isNewer older isOlder => ?_⟩
    rw [List.getLast?_append, List.getLast?_singleton, Option.mem_def] at isNewer
    rw [List.head?_singleton, Option.mem_def] at isOlder
    cases isNewer
    cases isOlder
    exact ⟨rfl, named, same⟩
  · intro other member
    rw [List.tail_append_of_ne_nil (by simp)] at member
    rcases List.mem_append.mp member with old | isParent
    · exact follows.recorded other old
    · rw [List.mem_singleton] at isParent
      rw [isParent]
      exact left.symm
  · intro other
    dsimp only
    rw [HashMap.lookup_erase, follows.left other, grown]
    by_cases isParent : other = item.2.parentSlot
    · rw [if_pos isParent, if_pos (List.mem_append_right _ (List.mem_singleton.mpr isParent))]
    · rw [if_neg isParent]
      by_cases taken : other ∈ (before ++ [item]).map Prod.fst
      · rw [if_pos taken, if_pos (List.mem_append_left _ taken)]
      · rw [if_neg taken, if_neg]
        intro member
        rcases List.mem_append.mp member with taken' | isParent'
        · exact taken taken'
        · exact isParent (List.mem_singleton.mp isParent')

/-- The walk extends a chain and stops at a block without another recorded parent. -/
theorem follows_walkParents {before : List (ℕ × BlockEntry)} (follows : Follows blocks (before ++ [item]) inner) :
    ∃ chain oldest after,
      inner.walkParents item.2.parentSlot item.2.parentBlockhash (before ++ [item]) = (chain ++ [oldest], after) ∧
        (before ++ [item]) <+: (chain ++ [oldest]) ∧ Follows blocks (chain ++ [oldest]) after ∧
        ∀ parent, after.blocks.lookup oldest.2.parentSlot = some parent →
          ¬ oldest.2.IsChildOf oldest.2.parentSlot parent := by
  -- each step leaves fewer blocks, whatever their parents are
  induction size : inner.blocks.entries.length using Nat.strong_induction_on generalizing inner before item with
  | _ count ih =>
    by_cases ends : ∀ parent, inner.blocks.lookup item.2.parentSlot = some parent →
        ¬(item.2.parentBlockhash ≠ "" ∧ parent.blockhash = item.2.parentBlockhash)
    · refine ⟨before, item, inner, walkParents_stop ends _, List.prefix_rfl, follows, fun parent found isChild => ?_⟩
      exact ends parent found isChild.2
    · push Not at ends
      obtain ⟨parent, found, named, same⟩ := ends
      obtain ⟨chain, oldest, after, walked, extends_, kept, stops⟩ :=
        ih _ (size ▸ length_erase_lt found) (follows.parent found named same) rfl
      refine ⟨chain, oldest, after, ?_, (List.prefix_append _ _).trans extends_, kept, stops⟩
      rw [walkParents_parent found named same]
      exact walked

/-- Taking the starting slot out of the map begins the chain. -/
theorem follows_start (inner : FinalizerInner) (slot : ℕ) (entry : BlockEntry) :
    Follows inner.blocks ([] ++ [(slot, entry)]) { inner with blocks := inner.blocks.erase slot } where
  distinct := List.nodup_singleton _
  linked := List.isChain_singleton _
  recorded := fun _ member => by contradiction
  left := fun other => by
    dsimp only
    rw [HashMap.lookup_erase, List.nil_append, List.map_singleton]
    simp only [List.mem_singleton]

/-- The result is the longest chain of named parents that ends at the slot, oldest first, and exactly its blocks
leave the map. A slot without a block stands alone, as an empty entry. -/
theorem getSlotAncestors_chain (inner : FinalizerInner) (slot : ℕ) :
    ∃ older newest chain after, inner.getSlotAncestors slot = (chain, after) ∧ chain = older ++ [(slot, newest)] ∧
      (inner.blocks.lookup slot = some newest ∨
        inner.blocks.lookup slot = none ∧ newest = .default ∧ older = []) ∧
      (∀ item ∈ older, inner.blocks.lookup item.1 = some item.2) ∧
      (chain.map Prod.fst).Nodup ∧
      (chain.IsChain fun older newer => newer.2.IsChildOf older.1 older.2) ∧
      (∀ oldest ∈ chain.head?, ∀ parent, inner.blocks.lookup oldest.2.parentSlot = some parent →
        oldest.2.IsChildOf oldest.2.parentSlot parent → oldest.2.parentSlot ∈ chain.map Prod.fst) ∧
      ∀ other, after.blocks.lookup other =
        if other ∈ chain.map Prod.fst then none else inner.blocks.lookup other := by
  obtain ⟨before, oldest, after, walked, ⟨rest, listed⟩, follows, stops⟩ :=
    follows_walkParents (follows_start inner slot ((inner.blocks.lookup slot).getD .default))
  rw [← listed] at follows walked
  rw [List.nil_append, List.singleton_append] at follows walked
  have slots : ∀ other, other ∈ ((slot, (inner.blocks.lookup slot).getD .default) :: rest).reverse.map Prod.fst ↔
      other ∈ ((slot, (inner.blocks.lookup slot).getD .default) :: rest).map Prod.fst := fun other => by
    rw [List.map_reverse, List.mem_reverse]
  refine ⟨rest.reverse, (inner.blocks.lookup slot).getD .default,
    ((slot, (inner.blocks.lookup slot).getD .default) :: rest).reverse, after, ?_, List.reverse_cons, ?_, ?_, ?_, ?_,
    ?_, ?_⟩
  · unfold getSlotAncestors
    dsimp only at walked ⊢
    rw [walked]
  · cases found : inner.blocks.lookup slot with
    | some entry => exact Or.inl rfl
    | none =>
      refine Or.inr ⟨rfl, rfl, ?_⟩
      rw [found] at follows
      cases rest with
      | nil => rfl
      | cons parent rest =>
        -- an empty entry names no parent
        have linked := (List.isChain_cons_cons.mp follows.linked).1
        exact absurd rfl linked.2.1
  · intro item member
    exact follows.recorded item (List.mem_reverse.mp member)
  · rw [List.map_reverse, List.nodup_reverse]
    exact follows.distinct
  · exact List.isChain_reverse.mpr follows.linked
  · intro last isLast parent found isChild
    rw [slots]
    by_contra fresh
    have left := follows.left last.2.parentSlot
    rw [if_neg fresh, found] at left
    rw [List.head?_reverse] at isLast
    have same : oldest = last := by
      have ends : (before ++ [oldest]).getLast? = some oldest := by simp
      rw [← listed, List.nil_append, List.singleton_append, isLast] at ends
      exact (Option.some.inj ends).symm
    rw [same] at stops
    exact stops parent left isChild
  · intro other
    rw [follows.left other]
    simp only [slots]

/-- Without a recorded block the slot still comes back, as an empty entry. -/
theorem getSlotAncestors_unrecorded :
    ¬ ∀ item ∈ (new.getSlotAncestors 5).1, new.blocks.lookup item.1 = some item.2 := by
  intro recorded
  have stays := @walkParents_stop new 0 "" (fun parent found => by
    rw [show new.blocks = ∅ from rfl, HashMap.lookup_empty] at found
    contradiction) [(5, .default)]
  have missing := recorded (5, .default) (by
    unfold getSlotAncestors
    rw [List.mem_reverse]
    exact stays ▸ List.mem_singleton_self _)
  rw [show new.blocks = ∅ from rfl, HashMap.lookup_empty] at missing
  contradiction

end FinalizerInner

end Cloudbreak.Model.Finalizer
