import Cloudbreak.Model.MintCache.Api

/-! # Chained application over any buffer

The feed does not check that a block's parent lies below it, so the walk over the parents is given fuel here:
it returns nothing when the fuel runs out before it does. A walk that returns is applied oldest first, and the
buffer is then pruned; `expect` on a walked block that is gone panics.
-/

namespace Cloudbreak.Model.MintCache

open Cloudbreak.ToMathlib

namespace SlotBlocks

/-- The first block of a slot with a hash. No hash stands for any. -/
def find (blocks : SlotBlocks) (slot : ℕ) (blockhash : String) : Option BufferedBlock :=
  (blocks.lookup slot).bind fun slotBlocks =>
    slotBlocks.find? fun block => decide (blockhash = "" ∨ block.blockhash = blockhash)

end SlotBlocks

/-- A block whose parent is the applied slot names the applied block, where both hashes are known. -/
def BufferedBlock.Linked (block : BufferedBlock) (applied : Applied) : Prop :=
  applied.blockhash = "" ∨ block.parentBlockhash = "" ∨ block.parentBlockhash = applied.blockhash

instance (block : BufferedBlock) (applied : Applied) : Decidable (block.Linked applied) :=
  inferInstanceAs (Decidable (_ ∨ _ ∨ _))

/-- The walk from a slot back to the applied one; the inner `none` is that of the source. -/
def walkChain (blocks : SlotBlocks) (applied : Applied) :
    ℕ → ℕ → String → List (ℕ × String) → Option (Option (List (ℕ × String)))
  | 0, _, _, _ => none
  | fuel + 1, slot, blockhash, chain =>
    match blocks.find slot blockhash with
    | none => some none
    | some block =>
      let chain := chain ++ [(slot, block.blockhash)]
      if block.parentSlot = applied.slot then
        if block.Linked applied then some (some chain) else some none
      else if block.parentSlot < applied.slot then some none
      else walkChain blocks applied fuel block.parentSlot block.parentBlockhash chain

/-- Applies one walked block and takes it out of the buffer. -/
def applyWalked (current : MintStore × SlotBlocks) (walked : ℕ × String) : Option (MintStore × SlotBlocks) :=
  (current.2.lookup walked.1).bind fun slotBlocks =>
    (slotBlocks.find? fun block => decide (block.blockhash = walked.2)).map fun block =>
      (current.1.applyBlock walked.1 block.changes, current.2.remove walked.1 walked.2)

/-- What `apply_chain` reads and writes. -/
structure ChainCache where
  store : MintStore
  applied : Applied
  blocks : SlotBlocks

/-- The number of blocks applied, with the cache afterwards. `none` without enough fuel or on a panic. -/
def applyChain (fuel : ℕ) (cache : ChainCache) (confirmed applied : Applied) : Option (Option ℕ × ChainCache) :=
  match walkChain cache.blocks applied fuel confirmed.slot confirmed.blockhash [] with
  | none => none
  | some none => some (none, cache)
  | some (some chain) =>
    (chain.reverse.foldlM applyWalked (cache.store, cache.blocks)).map fun done =>
      (some chain.length, ⟨done.1, confirmed, done.2.prune confirmed.slot⟩)

end Cloudbreak.Model.MintCache
