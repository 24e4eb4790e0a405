import Cloudbreak.Model.Finalizer.Finalizer
import Cloudbreak.Model.Supply.Tracker

/-! # The gap check and the gap fill as two tasks

The main loop checks every received block for a gap; the fill task repairs the queued slots. Both flip the
finalizer's pause, the health reasons and the supply status. A task runs on to its next suspension: a snapshot
fetch, the stream of repaired blocks, or a health write that is still on its way to the database.
-/

namespace Cloudbreak.Model.SelfHealing

open Finalizer (FinalizerInner)
open Supply (SupplyState)

inductive HealthReason where
  | startup
  | gapFill
deriving DecidableEq

/-- Who waits for a health write. -/
inductive Task where
  | main
  | fill
  | startup
deriving DecidableEq

/-- The reasons in memory, the row in the database, and the writes that have not reached it yet. -/
structure ServiceHealth where
  reasons : Finset HealthReason
  writes : List (Task × Bool)
  healthy : Bool
deriving DecidableEq

namespace ServiceHealth

def new : ServiceHealth := ⟨{.startup}, [], false⟩

def updateServiceHealth (health : ServiceHealth) (task : Task) (healthy : Bool) : ServiceHealth :=
  { health with writes := health.writes ++ [(task, healthy)] }

def addReason (health : ServiceHealth) (task : Task) (reason : HealthReason) : ServiceHealth :=
  if reason ∈ health.reasons then health
  else { health with reasons := insert reason health.reasons }.updateServiceHealth task false

def removeReason (health : ServiceHealth) (task : Task) (reason : HealthReason) : ServiceHealth :=
  let left := { health with reasons := health.reasons.erase reason }
  if reason ∈ health.reasons ∧ left.reasons = ∅ then left.updateServiceHealth task true else left

/-- A task is suspended until its write has reached the database. -/
def Awaits (health : ServiceHealth) (task : Task) : Prop := task ∈ health.writes.map Prod.fst

instance (health : ServiceHealth) (task : Task) : Decidable (health.Awaits task) :=
  inferInstanceAs (Decidable (_ ∈ _))

/-- A write reaches the database. -/
def written (health : ServiceHealth) (task : Task) : Option ServiceHealth :=
  (health.writes.find? fun write => decide (write.1 = task)).map fun write =>
    { health with writes := health.writes.erase write, healthy := write.2 }

end ServiceHealth

/-- The main loop, outside a check or suspended in the pause that the check of a block started. -/
inductive MainTask where
  | idle
  | pausing (block : ChainBlock)
deriving DecidableEq

/-- The fill task. A suspended resume remembers whether the list it found empty was extended since. -/
inductive FillTask where
  | sleeping
  | fetching (confirmedGaps : List ℕ) (boundaries : Finset ℕ)
  | repairing (coveredGaps repairedSlots : List ℕ) (boundaries : Finset ℕ)
  | resuming (stillEmpty : Bool)
deriving DecidableEq

/-- What a fill leaves in the detector: its empty slots and its boundaries are dropped. -/
def Detector.dropFilled (detector : Detector) (coveredGaps repairedSlots : List ℕ) (boundaries : Finset ℕ) :
    Detector :=
  let emptySlots := coveredGaps.filter fun slot => decide (slot ∉ repairedSlots)
  let left := emptySlots.foldl removeSlotFromGapsList detector
  { left with gapBoundaries := left.gapBoundaries \ boundaries }

/-- A new gap was queued. -/
def FillTask.disturb : FillTask → FillTask
  | resuming _ => resuming false
  | task => task

/-- The shared state of the tasks. `settled` says that a tick which found the list empty has run to completion
and no gap was queued since it did. -/
structure SelfHealingState where
  detector : Detector
  finalizer : FinalizerInner
  health : ServiceHealth
  supply : SupplyState
  startupFinished : Bool
  main : MainTask
  fill : FillTask
  settled : Bool

namespace SelfHealingState

def new (cap failPinCap : ℕ) : SelfHealingState where
  detector := .new
  finalizer := .new
  health := .new
  supply := .new cap failPinCap
  startupFinished := false
  main := .idle
  fill := .sleeping
  settled := false

/-- The part of a check that found a gap after its pause. -/
def finishCheck (state : SelfHealingState) (block : ChainBlock) : SelfHealingState :=
  { state with supply := state.supply.markGap.1, detector := state.detector.advance block, main := .idle }

/-- Pauses finalization for the gap before a block. -/
def pauseForGap (state : SelfHealingState) : SelfHealingState :=
  let (finalizer, newlyPaused) := state.finalizer.pause
  let health := if newlyPaused then state.health.addReason .main .gapFill else state.health
  { state with finalizer, health }

/-- A check of a received block up to its end or its suspension. -/
def checkSlotGap (state : SelfHealingState) (block : ChainBlock) : SelfHealingState :=
  match state.detector.verdict block with
  | .outOfOrder => { state with detector := state.detector.removeSlotFromGapsList block.slot }
  | .continues => { state with detector := state.detector.advance block }
  | .gap slots =>
    let queued := { state with
      detector := state.detector.queueGap slots
      fill := state.fill.disturb
      settled := false }
    let paused := queued.pauseForGap
    if paused.health.Awaits .main then { paused with main := .pausing block } else paused.finishCheck block

/-- Resumes finalization at the end of a tick that found the list empty. -/
def resumeFinalizer (state : SelfHealingState) : SelfHealingState :=
  let health := state.health.removeReason .fill .gapFill
  let resumed := { state with finalizer := state.finalizer.resume, health }
  if health.Awaits .fill then { resumed with fill := .resuming true }
  else { resumed with fill := .sleeping, settled := true }

/-- A tick up to its first suspension. Gaps before the end of the startup stop the process. -/
def tick (state : SelfHealingState) : Option SelfHealingState :=
  if state.detector.gapsList = [] then some state.resumeFinalizer
  else if state.startupFinished then
    some { state with fill := .fetching state.detector.gapsList state.detector.gapBoundaries }
  else none

/-- The fetched snapshot covers the slots above its base. -/
def fetched (state : SelfHealingState) (confirmedGaps : List ℕ) (boundaries : Finset ℕ) (baseSlot : ℕ) :
    SelfHealingState :=
  let coveredGaps := confirmedGaps.filter fun slot => decide (slot > baseSlot)
  { state with fill := if coveredGaps = [] then .sleeping else .repairing coveredGaps [] boundaries }

/-- A block of the snapshot has been saved. -/
def repaired (state : SelfHealingState) (coveredGaps repairedSlots : List ℕ) (boundaries : Finset ℕ) (slot : ℕ) :
    SelfHealingState :=
  { state with
    finalizer := state.finalizer.enqueueUnbounded slot
    detector := state.detector.removeSlotFromGapsList slot
    fill := .repairing coveredGaps (slot :: repairedSlots) boundaries }

/-- The end of a fill: drop the empty slots, seed the boundaries, resume when no gap is left. -/
def filled (state : SelfHealingState) (coveredGaps repairedSlots : List ℕ) (boundaries : Finset ℕ) :
    SelfHealingState :=
  let seeded := { state with
    detector := state.detector.dropFilled coveredGaps repairedSlots boundaries
    finalizer := { state.finalizer with pending := boundaries ∪ state.finalizer.pending } }
  if seeded.detector.gapsList = [] then { seeded with supply := state.supply.finishGap }.resumeFinalizer
  else { seeded with fill := .sleeping }

end SelfHealingState

inductive TaskEvent where
  | received (block : ChainBlock)
  | mainResumes
  | tick
  | fetched (baseSlot : ℕ)
  | gaveUp
  | repaired (slot : ℕ)
  | filled
  | fillResumes
  | written (task : Task)
  | startupFinished
  | setStartupTotal (slot capitalization : ℕ)
  | finishBootstrap (startupBalances : ToMathlib.HashMap Pubkey ℕ)
  | markStale

namespace SelfHealingState

/-- A task runs up to its next suspension. -/
def step (state : SelfHealingState) : TaskEvent → Option SelfHealingState
  | .received block => if state.main = .idle then some (state.checkSlotGap block) else none
  | .mainResumes =>
    match state.main with
    | .pausing block => if state.health.Awaits .main then none else some (state.finishCheck block)
    | .idle => none
  | .tick => if state.fill = .sleeping then state.tick else none
  | .fetched baseSlot =>
    match state.fill with
    | .fetching confirmedGaps boundaries => some (state.fetched confirmedGaps boundaries baseSlot)
    | _ => none
  | .gaveUp =>
    match state.fill with
    | .fetching _ _ => some { state with fill := .sleeping }
    | _ => none
  | .repaired slot =>
    match state.fill with
    | .repairing coveredGaps repairedSlots boundaries =>
      some (state.repaired coveredGaps repairedSlots boundaries slot)
    | _ => none
  | .filled =>
    match state.fill with
    | .repairing coveredGaps repairedSlots boundaries => some (state.filled coveredGaps repairedSlots boundaries)
    | _ => none
  | .fillResumes =>
    match state.fill with
    | .resuming stillEmpty =>
      if state.health.Awaits .fill then none
      else some { state with fill := .sleeping, settled := state.settled || stillEmpty }
    | _ => none
  | .written task => (state.health.written task).map fun health => { state with health }
  | .startupFinished =>
    if state.startupFinished then none
    else
      let health := state.health.removeReason .startup .startup
      some { state with startupFinished := true, health }
  | .setStartupTotal slot capitalization =>
    some { state with supply := state.supply.setStartupTotal slot capitalization }
  | .finishBootstrap startupBalances =>
    (state.supply.finishBootstrap startupBalances).map fun live => { state with supply := live.1 }
  | .markStale => some { state with supply := state.supply.markStale.1 }

end SelfHealingState

end Cloudbreak.Model.SelfHealing
