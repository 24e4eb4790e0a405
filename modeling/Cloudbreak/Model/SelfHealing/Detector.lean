import Cloudbreak.Model.Account

/-! # Gap detection over the block stream

A received block either continues the chain from the last one received, or proves that a real block was
missed in between; the slots in between are then queued for repair. Slot 0 stands for nothing received yet.
-/

namespace Cloudbreak.Model.SelfHealing

/-- What a block says about its place in the chain. -/
structure ChainBlock where
  slot : ℕ
  blockhash : String
  parentSlot : ℕ
  parentBlockhash : String
deriving DecidableEq, Repr

/-- Blocks in ascending slots, each naming the one before it as its parent. The lowest one's parent is not in
the list; it names no higher slot than its own. -/
structure SingleChain where
  blocks : List ChainBlock
  linked : blocks.IsChain fun parent child =>
    parent.slot < child.slot ∧ child.parentSlot = parent.slot ∧ child.parentBlockhash = parent.blockhash
  hashed : ∀ block ∈ blocks, block.blockhash ≠ ""
  rooted : ∀ block ∈ blocks, block.parentSlot ≤ block.slot

structure Detector where
  lastSlotReceived : ℕ
  lastBlockhashReceived : String
  gapsList : List ℕ
  gapBoundaries : Finset ℕ
deriving DecidableEq

namespace Detector

def new : Detector := ⟨0, "", [], ∅⟩

def removeSlotFromGapsList (detector : Detector) (slot : ℕ) : Detector :=
  { detector with gapsList := detector.gapsList.filter fun other => decide (other ≠ slot) }

/-- What a received block means for the list. -/
inductive Verdict where
  | outOfOrder
  | continues
  | gap (slots : List ℕ)
deriving DecidableEq

def verdict (detector : Detector) (block : ChainBlock) : Verdict :=
  if block.slot ≤ detector.lastSlotReceived then .outOfOrder
  else if detector.lastSlotReceived ≠ 0 ∧ block.slot > detector.lastSlotReceived + 1 then
    let buildsOnLast := block.parentSlot = detector.lastSlotReceived ∧
      detector.lastBlockhashReceived = block.parentBlockhash
    if buildsOnLast then .continues
    else .gap (List.range' (detector.lastSlotReceived + 1) (block.slot - (detector.lastSlotReceived + 1)))
  else .continues

/-- Queues the slots of a gap, with the slot just below it as its boundary. -/
def queueGap (detector : Detector) (slots : List ℕ) : Detector :=
  { detector with
    gapsList := detector.gapsList ++ slots
    gapBoundaries := insert detector.lastSlotReceived detector.gapBoundaries }

def advance (detector : Detector) (block : ChainBlock) : Detector :=
  { detector with lastSlotReceived := block.slot, lastBlockhashReceived := block.blockhash }

/-- What a whole call of the check leaves in the detector. -/
def checkSlotGap (detector : Detector) (block : ChainBlock) : Detector :=
  match detector.verdict block with
  | .outOfOrder => detector.removeSlotFromGapsList block.slot
  | .continues => detector.advance block
  | .gap slots => (detector.queueGap slots).advance block

end Detector

/-- What changes the list: a block of the stream, and a repaired or empty slot. -/
inductive Arrival where
  | received (block : ChainBlock)
  | repaired (slot : ℕ)
deriving DecidableEq

namespace Arrival

def block? : Arrival → Option ChainBlock
  | received block => some block
  | repaired _ => none

end Arrival

/-- The blocks received so far, in order of arrival. -/
def received (arrivals : List Arrival) : List ChainBlock := arrivals.filterMap Arrival.block?

def Detector.step (detector : Detector) : Arrival → Option Detector
  | .received block => some (detector.checkSlotGap block)
  | .repaired slot => some (detector.removeSlotFromGapsList slot)

end Cloudbreak.Model.SelfHealing
