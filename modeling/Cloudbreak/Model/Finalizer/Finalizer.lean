import Cloudbreak.Model.Cleanup.Keys
import Cloudbreak.Model.SelfHealing.Detector

/-! # The slot finalizer

Confirmed blocks wait in a map until their slot is finalized. The worker takes the lowest pending slot and
finalizes it together with the ancestors it can walk to by parent hash. Logging and metrics are left out.
-/

namespace Cloudbreak.Model.Finalizer

open Cloudbreak.ToMathlib
open Cleanup (AccountsReceivedPerBlock)
open SelfHealing (ChainBlock SingleChain)

/-- A block that waits for finalization. One repaired from a snapshot has no chain data. -/
structure BlockEntry where
  accounts : AccountsReceivedPerBlock
  blockhash : String
  parentSlot : ℕ
  parentBlockhash : String
deriving DecidableEq

namespace BlockEntry

def default : BlockEntry := ⟨.empty, "", 0, ""⟩

def live (block : ChainBlock) (accounts : AccountsReceivedPerBlock) : BlockEntry :=
  ⟨accounts, block.blockhash, block.parentSlot, block.parentBlockhash⟩

def repaired (accounts : AccountsReceivedPerBlock) : BlockEntry := { default with accounts }

end BlockEntry

inductive PauseReason where
  | gapFill
deriving DecidableEq

structure FinalizerInner where
  blocks : HashMap ℕ BlockEntry
  pending : Finset ℕ
  pauseReasons : Finset PauseReason

namespace FinalizerInner

def new : FinalizerInner := ⟨∅, ∅, ∅⟩

def recordBlock (inner : FinalizerInner) (slot : ℕ) (entry : BlockEntry) : FinalizerInner :=
  { inner with blocks := inner.blocks.insert slot entry }

/-- Queues a repaired slot or a gap boundary. -/
def enqueueUnbounded (inner : FinalizerInner) (slot : ℕ) : FinalizerInner :=
  { inner with pending := insert slot inner.pending }

/-- Queues a notified slot, or blocks the producer while the queue is full. -/
def noteFinalized (inner : FinalizerInner) (bound slot : ℕ) : Option FinalizerInner :=
  if inner.pending.card < bound then some (inner.enqueueUnbounded slot) else none

/-- Pauses, and tells whether it was running. -/
def pause (inner : FinalizerInner) : FinalizerInner × Bool :=
  ({ inner with pauseReasons := insert .gapFill inner.pauseReasons }, !decide (.gapFill ∈ inner.pauseReasons))

def resume (inner : FinalizerInner) : FinalizerInner :=
  { inner with pauseReasons := inner.pauseReasons.erase .gapFill }

theorem length_erase_lt {blocks : HashMap ℕ BlockEntry} {slot : ℕ} {entry : BlockEntry}
    (found : blocks.lookup slot = some entry) : (blocks.erase slot).entries.length < blocks.entries.length := by
  have member := HashMap.lookup_eq_some_iff.mp found
  have shorter : (blocks.entries.kerase slot).length = blocks.entries.length - 1 :=
    List.length_eraseP_of_mem member (by simp)
  have nonempty := List.length_pos_of_mem member
  change (blocks.entries.kerase slot).length < _
  omega

/-- The walk over parents that wait with a matching hash; it takes them out of the map and the queue. -/
def walkParents (inner : FinalizerInner) (parentSlot : ℕ) (parentHash : String)
    (chain : List (ℕ × BlockEntry)) : List (ℕ × BlockEntry) × FinalizerInner :=
  match _found : inner.blocks.lookup parentSlot with
  | none => (chain, inner)
  | some parent =>
    if parentHash ≠ "" ∧ parent.blockhash = parentHash then
      walkParents
        { inner with
          blocks := inner.blocks.erase parentSlot
          pending := inner.pending.erase parentSlot }
        parent.parentSlot parent.parentBlockhash (chain ++ [(parentSlot, parent)])
    else (chain, inner)
termination_by inner.blocks.entries.length
decreasing_by exact length_erase_lt _found

/-- A slot with the ancestors that wait, oldest first. A slot without a block counts as an empty one. -/
def getSlotAncestors (inner : FinalizerInner) (slot : ℕ) : List (ℕ × BlockEntry) × FinalizerInner :=
  let entry := (inner.blocks.lookup slot).getD .default
  let walked := walkParents { inner with blocks := inner.blocks.erase slot } entry.parentSlot
    entry.parentBlockhash [(slot, entry)]
  (walked.1.reverse, walked.2)

end FinalizerInner

/-- The finalizer with the slot its worker has taken off the queue, and its history: the recorded slots,
every slot finalized, and those of them that had a block waiting. -/
structure Worker where
  inner : FinalizerInner
  taken : Option ℕ
  recorded : List ℕ
  finalized : List ℕ
  handed : List ℕ

inductive Event where
  | record (block : ChainBlock) (accounts : AccountsReceivedPerBlock)
  | recordRepaired (slot : ℕ) (accounts : AccountsReceivedPerBlock)
  | notified (slot : ℕ)
  | enqueue (slot : ℕ)
  | pause
  | resume
  | take
  | finalize
deriving DecidableEq

namespace Worker

def start : Worker := ⟨.new, none, [], [], []⟩

def record (worker : Worker) (slot : ℕ) (entry : BlockEntry) : Worker :=
  { worker with inner := worker.inner.recordBlock slot entry, recorded := worker.recorded ++ [slot] }

/-- Takes the lowest pending slot, unless paused. -/
def take (worker : Worker) : Option Worker :=
  if worker.taken.isSome ∨ worker.inner.pauseReasons.Nonempty then none
  else if waiting : worker.inner.pending.Nonempty then
    let slot := worker.inner.pending.min' waiting
    some { worker with inner := { worker.inner with pending := worker.inner.pending.erase slot }, taken := some slot }
  else none

/-- Finalizes the taken slot with its ancestors. -/
def finalizeWithAncestors (worker : Worker) (slot : ℕ) : Worker :=
  let (chain, inner) := worker.inner.getSlotAncestors slot
  let slots := chain.map Prod.fst
  { worker with
    inner
    taken := none
    finalized := worker.finalized ++ slots
    handed := worker.handed ++ slots.filter fun slot => (worker.inner.blocks.lookup slot).isSome }

def step (bound : ℕ) (worker : Worker) : Event → Option Worker
  | .record block accounts => some (worker.record block.slot (.live block accounts))
  | .recordRepaired slot accounts => some (worker.record slot (.repaired accounts))
  | .notified slot => (worker.inner.noteFinalized bound slot).map fun inner => { worker with inner }
  | .enqueue slot => some { worker with inner := worker.inner.enqueueUnbounded slot }
  | .pause => some { worker with inner := worker.inner.pause.1 }
  | .resume => some { worker with inner := worker.inner.resume }
  | .take => worker.take
  | .finalize => worker.taken.map worker.finalizeWithAncestors

end Worker

end Cloudbreak.Model.Finalizer
