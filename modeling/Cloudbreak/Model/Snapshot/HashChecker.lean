import Cloudbreak.Model.Snapshot.Sidecar

/-! # The hash checker

Past a target slot the main loop only buffers its updates. An orchestrator meanwhile finds snapshots that cover a slot,
and when that slot is finalized the loop ends. The buffered updates up to the covered slot are then replayed, and the
database is compared with the snapshots.
-/

namespace Cloudbreak.Model.Snapshot

structure HashCheckerConfig where
  timeLimit : Option ℕ
  slotLimit : Option ℕ

/-- `other` are the statuses between these and those that are unknown. -/
inductive SlotStatus where
  | processed
  | confirmed
  | finalized
  | other
deriving DecidableEq, Repr

inductive SubscribeUpdate where
  | block (slot : ℕ)
  | slotUpdate (slot : ℕ) (status : SlotStatus)
  | other
deriving DecidableEq, Repr

def SubscribeUpdate.isBlock : SubscribeUpdate → Bool
  | .block _ => true
  | _ => false

/-- Past the covered slot. -/
def SubscribeUpdate.over (covered : ℕ) : SubscribeUpdate → Bool
  | .block slot => decide (covered < slot)
  | .slotUpdate slot _ => decide (covered < slot)
  | .other => false

structure HashCheckerState where
  targetSlot : ℕ
  coveredSlot : ℕ
  buffer : List SubscribeUpdate
  buffering : Bool
  grpcCancel : Bool
  snapshotFiles : Option SnapshotPair

/-- Milliseconds in a slot. -/
def slotMs : ℕ := 400

namespace HashCheckerState

def new (config : HashCheckerConfig) : HashCheckerState := ⟨config.slotLimit.getD 0, 0, [], false, false, none⟩

/-- Only while there is no target. -/
def setTargetFromFirstBlock (config : HashCheckerConfig) (state : HashCheckerState) (firstBlockSlot : ℕ) :
    HashCheckerState :=
  if state.targetSlot ≠ 0 then state
  else
    match config.timeLimit with
    | none => state
    | some timeLimit => { state with targetSlot := firstBlockSlot + timeLimit / slotMs }

def onFinalizedSlot (state : HashCheckerState) (slot : ℕ) : HashCheckerState :=
  if state.targetSlot = 0 ∨ slot < state.targetSlot then state
  else
    { state with
      buffering := true
      grpcCancel := state.grpcCancel || (decide (state.coveredSlot ≠ 0) && decide (state.coveredSlot ≤ slot)) }

def noteUpdate (config : HashCheckerConfig) (state : HashCheckerState) : SubscribeUpdate → HashCheckerState
  | .block slot => state.setTargetFromFirstBlock config slot
  | .slotUpdate slot .finalized => state.onFinalizedSlot slot
  | _ => state

def push (state : HashCheckerState) (update : SubscribeUpdate) : HashCheckerState :=
  { state with buffer := state.buffer ++ [update] }

end HashCheckerState

inductive OrchestratorPhase where
  | waiting
  | downloading (pair : SnapshotPair)
  | done
deriving DecidableEq

/-- A failure of the orchestrator or of the comparison ends the process. -/
inductive CheckPhase where
  | mainLoop
  | loopFinished
  | replayed
  | compared (pair : SnapshotPair)
  | exited
deriving DecidableEq

/-- The checker with what the main loop has received and the updates it has processed, in order. -/
structure HashCheck where
  state : HashCheckerState
  orchestrator : OrchestratorPhase
  phase : CheckPhase
  received : List SubscribeUpdate
  processed : List SubscribeUpdate

/-- `offers` is an answer of the tracker to the orchestrator. -/
inductive HashCheckEvent where
  | update (update : SubscribeUpdate)
  | channelClosed
  | offers (offers : List Offer)
  | downloaded (succeeds : Bool)
  | replay
  | compare

namespace HashCheck

def new (config : HashCheckerConfig) : HashCheck := ⟨.new config, .waiting, .mainLoop, [], []⟩

/-- One turn of the main loop. -/
def receive (config : HashCheckerConfig) (check : HashCheck) (update : SubscribeUpdate) : HashCheck :=
  let noted := check.state.noteUpdate config update
  let phase := if noted.grpcCancel then .loopFinished else .mainLoop
  let received := check.received ++ [update]
  if noted.buffering then { check with state := noted.push update, phase, received }
  else { check with state := noted, phase, received, processed := check.processed ++ [update] }

/-- The orchestrator asks once buffering has begun. -/
def takeOffers (check : HashCheck) (offers : List Offer) : HashCheck :=
  match getSnapshotData (some check.state.targetSlot) true offers with
  | .error _ => { check with phase := .exited }
  | .ok none => check
  | .ok (some pair) =>
    match pair.incrementalSnapshot with
    | none => { check with phase := .exited }
    | some incremental =>
      { check with
        state := { check.state with coveredSlot := incremental.slot }
        orchestrator := .downloading pair }

/-- The buffered updates, less those past the covered slot. -/
def replay (check : HashCheck) : HashCheck :=
  let covered := check.state.coveredSlot
  if covered = 0 then { check with phase := .exited }
  else
    { check with
      state := { check.state with buffer := [] }
      phase := .replayed
      processed := check.processed ++ check.state.buffer.filter fun update => !update.over covered }

def step (config : HashCheckerConfig) (check : HashCheck) : HashCheckEvent → Option HashCheck
  | .update update => if check.phase = .mainLoop then some (check.receive config update) else none
  | .channelClosed => if check.phase = .mainLoop then some { check with phase := .loopFinished } else none
  | .offers offers =>
    if check.phase ≠ .exited ∧ check.orchestrator = .waiting ∧ check.state.buffering then
      some (check.takeOffers offers)
    else none
  | .downloaded succeeds =>
    match check.orchestrator with
    | .downloading pair =>
      if check.phase = .exited then none
      else if succeeds then
        some { check with state := { check.state with snapshotFiles := some pair }, orchestrator := .done }
      else some { check with phase := .exited }
    | _ => none
  | .replay => if check.phase = .loopFinished then some check.replay else none
  | .compare =>
    if check.phase = .replayed then
      check.state.snapshotFiles.map fun pair =>
        { check with state := { check.state with snapshotFiles := none }, phase := .compared pair }
    else none

end HashCheck

/-- Blocks have positive slots. -/
def HashCheckEvent.Allowed : HashCheckEvent → Prop
  | .update (.block slot) => 0 < slot
  | _ => True

instance (event : HashCheckEvent) : Decidable event.Allowed :=
  match event with
  | .update (.block slot) => Nat.decLt 0 slot
  | .update (.slotUpdate _ _) => .isTrue trivial
  | .update .other => .isTrue trivial
  | .channelClosed => .isTrue trivial
  | .offers _ => .isTrue trivial
  | .downloaded _ => .isTrue trivial
  | .replay => .isTrue trivial
  | .compare => .isTrue trivial

end Cloudbreak.Model.Snapshot
