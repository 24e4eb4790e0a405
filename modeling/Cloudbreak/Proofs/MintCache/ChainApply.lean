import Cloudbreak.Proofs.MintCache.Pages

/-! # Applying the buffered chain

A block in the buffer under the hash of a chain block is that block, so the walk from a confirmed hash stays on
the chain. Applied oldest first, its blocks take the store from the applied slot to the confirmed one.
-/

namespace Cloudbreak.Model.MintCache

open Cloudbreak.ToMathlib
open SelfHealing (ChainBlock)

open ConfirmedChain (ofKey)

namespace ConfirmedChain

/-- A block under the hash of a chain block of its slot is that block. -/
def Matches (chain : ConfirmedChain) (slot : ℕ) (block : BufferedBlock) : Prop :=
  ∀ other ∈ chain.blocks, other.slot = slot → other.blockhash = block.blockhash →
    block.parentSlot = other.parentSlot ∧ block.parentBlockhash = other.parentBlockhash ∧
      block.changes = chain.changesAt slot

instance (chain : ConfirmedChain) (slot : ℕ) (block : BufferedBlock) : Decidable (chain.Matches slot block) :=
  inferInstanceAs (Decidable (∀ other ∈ chain.blocks, other.slot = slot → other.blockhash = block.blockhash →
    block.parentSlot = other.parentSlot ∧ block.parentBlockhash = other.parentBlockhash ∧
      block.changes = chain.changesAt slot))

/-- A slot and hash of a chain block. -/
def Names (chain : ConfirmedChain) (confirmed : Applied) : Prop :=
  ∃ block ∈ chain.blocks, block.slot = confirmed.slot ∧ block.blockhash = confirmed.blockhash

instance (chain : ConfirmedChain) (confirmed : Applied) : Decidable (chain.Names confirmed) :=
  inferInstanceAs (Decidable (∃ block ∈ chain.blocks, _ ∧ _))

end ConfirmedChain

namespace Buffer

variable {chain : ConfirmedChain} {buffer : Buffer} {applied : Applied} {slot : ℕ} {blockhash : String}
  {block : BufferedBlock} {known : ℕ}

/-- Every buffered block with a chain block's hash is that block. -/
def Faithful (buffer : Buffer) (chain : ConfirmedChain) : Prop := buffer.blocks.All chain.Matches

theorem Faithful.onBlock (faithful : buffer.Faithful chain) (older : block.parentSlot < slot)
    (isChain : chain.Matches slot block) : (buffer.onBlock slot block older).Faithful chain := by
  rw [Faithful, Buffer.onBlock]
  dsimp only
  exact SlotBlocks.All.onBlock faithful isChain

theorem Faithful.removeAll (faithful : buffer.Faithful chain) (entries : List (ℕ × BufferedBlock)) :
    (entries.foldl (fun buffer entry => buffer.remove entry.1 entry.2.blockhash) buffer).Faithful chain := by
  induction entries generalizing buffer with
  | nil => exact faithful
  | cons entry rest ih => exact ih (SlotBlocks.All.remove faithful entry.1 entry.2.blockhash)

/-- The block found under a chain block's hash. -/
theorem Faithful.find (faithful : buffer.Faithful chain) {named : ChainBlock} (isBlock : named ∈ chain.blocks)
    (found : buffer.find named.slot named.blockhash = some block) :
    block.parentSlot = named.parentSlot ∧ block.parentBlockhash = named.parentBlockhash ∧
      block.changes = chain.changesAt named.slot := by
  obtain ⟨⟨slotBlocks, isHeld, member⟩, isHash⟩ := find_eq_some found
  have same := isHash.resolve_left (chain.hashed named isBlock)
  exact faithful named.slot slotBlocks isHeld block member named isBlock rfl same.symm

private theorem walk_missing (missing : buffer.find slot blockhash = none) :
    buffer.walk applied slot blockhash = none := by
  rw [walk]
  split
  · rfl
  · next block isFound =>
    rw [missing] at isFound
    contradiction

theorem walk_found (found : buffer.find slot blockhash = some block) :
    buffer.walk applied slot blockhash =
      if block.parentSlot = applied.slot then
        if applied.blockhash = "" ∨ block.parentBlockhash = "" ∨ block.parentBlockhash = applied.blockhash then
          some [(slot, block)]
        else none
      else if block.parentSlot < applied.slot then none
      else (buffer.walk applied block.parentSlot block.parentBlockhash).map ((slot, block) :: ·) := by
  rw [walk]
  split
  · next missing =>
    rw [missing] at found
    contradiction
  · next other isFound =>
    obtain rfl : other = block := Option.some.inj (isFound.symm.trans found)
    rfl

/-- The chain from the applied block up to a confirmed one brings the store to the confirmed slot. -/
theorem told_walk (faithful : buffer.Faithful chain) (first : chain.firstDbSlot ≤ applied.slot)
    (low : applied.slot ≤ known) {store : MintStore} (told : ∀ key, chain.Told known key (store.get key))
    {entries : List (ℕ × BufferedBlock)} (named : chain.Names ⟨slot, blockhash⟩)
    (walked : buffer.walk applied slot blockhash = some entries) (key : Pubkey) :
    chain.Told (max known slot) key ((entries.reverse.foldl (fun store entry =>
      store.applyBlock entry.1 entry.2.changes) store).get key) := by
  -- the walk has found a chain block, whose parent is the applied block or one more chain block
  have isBlock : ∀ {slot blockhash block}, chain.Names ⟨slot, blockhash⟩ → buffer.find slot blockhash = some block →
      chain.firstDbSlot ≤ block.parentSlot → block.changes = chain.changesAt slot ∧
        chain.Names ⟨block.parentSlot, block.parentBlockhash⟩ ∧
        ∀ key between, block.parentSlot < between → between < slot → ofKey key (chain.changesAt between) = [] := by
    rintro slot blockhash block ⟨named, isNamed, rfl, rfl⟩ found high
    obtain ⟨isParent, isParentHash, isChanges⟩ := faithful.find isNamed found
    have older := parentSlot_lt found
    rw [isParent] at older high ⊢
    rw [isParentHash]
    exact ⟨isChanges, chain.parent_of_block isNamed older high⟩
  induction slot, blockhash using walk.induct buffer applied generalizing entries key with
  | case1 slot blockhash missing =>
    rw [walk_missing missing] at walked
    contradiction
  | case2 slot blockhash block found parentIs linked =>
    rw [walk_found found, if_pos parentIs, if_pos linked] at walked
    cases walked
    obtain ⟨isChanges, _, quiet⟩ := isBlock named found (parentIs ▸ first)
    have older := parentSlot_lt found
    change chain.Told (max known slot) key ((store.applyBlock slot block.changes).get key)
    rw [MintStore.get_applyBlock, isChanges]
    exact (told key).applySlot (fun between above => quiet key between (by omega)) (by omega) (by omega)
  | case3 slot blockhash block found parentIs unlinked =>
    rw [walk_found found, if_pos parentIs, if_neg unlinked] at walked
    contradiction
  | case4 slot blockhash block found parentIs below =>
    rw [walk_found found, if_neg parentIs, if_pos below] at walked
    contradiction
  | case5 slot blockhash block found parentIs above ih =>
    rw [walk_found found, if_neg parentIs, if_neg above] at walked
    obtain ⟨rest, walkedRest, rfl⟩ := Option.map_eq_some_iff.mp walked
    obtain ⟨isChanges, isParent, quiet⟩ := isBlock named found (by omega)
    have older := parentSlot_lt found
    have before := ih isParent walkedRest key
    rw [List.reverse_cons, List.foldl_append]
    change chain.Told (max known slot) key ((MintStore.applyBlock _ slot block.changes).get key)
    rw [MintStore.get_applyBlock, isChanges]
    have after := before.applySlot (fun between above => quiet key between (by omega)) (by omega) (by omega)
    have same : max (max known block.parentSlot) slot = max known slot := by omega
    exact same ▸ after

end Buffer

end Cloudbreak.Model.MintCache
