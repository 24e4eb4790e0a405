import Mathlib

/-! # The subscription and its reconnections

One task subscribes to blocks, and subscribes again whenever the stream ends. The give-up window opens with the first
failed attempt and is cleared only by a run that delivered a block or ended without an error; a run whose inner task
panics clears nothing. While the window is open the task backs off between two attempts, drops `fromSlot` after some
time, and panics in the end. Times are in milliseconds.
-/

namespace Cloudbreak.Model.Grpc

structure GrpcConfig where
  maxGrpcErrors : ℕ
  reconnectGiveUp : ℕ
  reconnectBackoff : ℕ
  reconnectFromSlotRetain : ℕ

/-- An open stream. `next` is the position of the server in its blocks. -/
structure GrpcStream where
  next : ℕ
  lastBlockReceivedAt : ℕ
  grpcCurrentErrors : ℕ
  receivedBlock : Bool
  streamErrored : Bool
deriving DecidableEq, Repr

inductive GrpcPhase where
  | loopHead
  | backingOff (until_ : ℕ)
  | connecting
  | subscribing (fromSlot : Option ℕ)
  | streaming (stream : GrpcStream)
  | cancelled
  | panicked
deriving DecidableEq, Repr

/-- The task, the channel of its blocks and the last slot the consumer has received. `delivered` are the blocks sent to
the channel with their times, and `attemptedAt` is the time of the last attempt to connect. -/
structure GrpcSubscription where
  now : ℕ
  phase : GrpcPhase
  reconnectFailedSince : Option ℕ
  isReconnect : Bool
  cancel : Bool
  lastSlotReceived : ℕ
  channel : List ℕ
  delivered : List (ℕ × ℕ)
  attemptedAt : Option ℕ

inductive GrpcUpdate where
  | block
  | other
  | failure
deriving DecidableEq, Repr

/-- `start` is the position the server starts at. A stream ends after its inactivity timeout or with `None`, or its
inner task panics. -/
inductive GrpcEvent where
  | tick (elapsed : ℕ)
  | turn
  | wake
  | connect (succeeds : Bool)
  | subscribe (succeeds : Bool) (start : ℕ)
  | update (update : GrpcUpdate)
  | streamEnds
  | taskPanics
  | consume
  | cancelled
deriving DecidableEq, Repr

/-- Without a block for this long every update counts as an error. -/
def noBlockLimit : ℕ := 30000

namespace GrpcSubscription

def new : GrpcSubscription := ⟨0, .loopHead, none, false, false, 0, [], [], none⟩

/-- Opens the window, or leaves it open. -/
def noteFailure (sub : GrpcSubscription) : GrpcSubscription :=
  { sub with reconnectFailedSince := some (sub.reconnectFailedSince.getD sub.now), phase := .loopHead }

/-- Backoff and give-up, at the head of the loop. -/
def turn (config : GrpcConfig) (sub : GrpcSubscription) : GrpcSubscription :=
  if sub.cancel then { sub with phase := .cancelled }
  else
    match sub.reconnectFailedSince with
    | none => { sub with phase := .connecting }
    | some started =>
      if sub.now - started ≥ config.reconnectGiveUp then { sub with phase := .panicked }
      else { sub with phase := .backingOff (sub.now + config.reconnectBackoff) }

/-- Replays from the last slot on a reconnect, while the window has not been open for too long. -/
def fromSlot (config : GrpcConfig) (sub : GrpcSubscription) : Option ℕ :=
  let keepFromSlot := sub.reconnectFailedSince.all fun started =>
    decide (sub.now - started < config.reconnectFromSlotRetain)
  if sub.isReconnect && keepFromSlot then
    if sub.lastSlotReceived ≠ 0 then some (sub.lastSlotReceived + 1) else none
  else none

/-- The stream has ended. It failed if it errored before any block, or if its task panicked. -/
def endStream (sub : GrpcSubscription) (failedWithoutData : Bool) : GrpcSubscription :=
  let ended := { sub with isReconnect := true }
  if failedWithoutData then ended.noteFailure
  else { ended with reconnectFailedSince := none, phase := .loopHead }

def breakStream (sub : GrpcSubscription) (stream : GrpcStream) : GrpcSubscription :=
  sub.endStream (stream.streamErrored && !stream.receivedBlock)

/-- An update past the check for a missing block. -/
def handle (config : GrpcConfig) (chain : ℕ → ℕ) (sub : GrpcSubscription) (stream : GrpcStream) :
    GrpcUpdate → GrpcSubscription
  | .other => { sub with phase := .streaming stream }
  | .block =>
    { sub with
      phase := .streaming { stream with next := stream.next + 1, lastBlockReceivedAt := sub.now, receivedBlock := true }
      channel := sub.channel ++ [chain stream.next]
      delivered := sub.delivered ++ [(chain stream.next, sub.now)] }
  | .failure =>
    let stream := { stream with streamErrored := true, grpcCurrentErrors := stream.grpcCurrentErrors + 1 }
    if stream.grpcCurrentErrors ≥ config.maxGrpcErrors then sub.breakStream stream
    else { sub with phase := .streaming stream }

/-- One item of the stream. The break for a missing block drops it. -/
def receive (config : GrpcConfig) (chain : ℕ → ℕ) (sub : GrpcSubscription) (stream : GrpcStream) (update : GrpcUpdate) :
    GrpcSubscription :=
  if sub.cancel then sub.endStream false
  else if sub.now - stream.lastBlockReceivedAt > noBlockLimit then
    let counted := { stream with grpcCurrentErrors := stream.grpcCurrentErrors + 1 }
    if counted.grpcCurrentErrors ≥ config.maxGrpcErrors then sub.breakStream counted
    else sub.handle config chain counted update
  else sub.handle config chain stream update

/-- `chain` are the slots of the server's blocks. -/
def step (config : GrpcConfig) (chain : ℕ → ℕ) (sub : GrpcSubscription) : GrpcEvent → Option GrpcSubscription
  | .tick elapsed => some { sub with now := sub.now + elapsed }
  | .turn => if sub.phase = .loopHead then some (sub.turn config) else none
  | .wake =>
    match sub.phase with
    | .backingOff until_ => if until_ ≤ sub.now then some { sub with phase := .connecting } else none
    | _ => none
  | .connect succeeds =>
    if sub.phase = .connecting then
      let attempted := { sub with attemptedAt := some sub.now }
      some (if succeeds then { attempted with phase := .subscribing (sub.fromSlot config) } else attempted.noteFailure)
    else none
  | .subscribe succeeds start =>
    match sub.phase with
    | .subscribing _ =>
      some (if succeeds then { sub with phase := .streaming ⟨start, sub.now, 0, false, false⟩ } else sub.noteFailure)
    | _ => none
  | .update update =>
    match sub.phase with
    | .streaming stream => some (sub.receive config chain stream update)
    | _ => none
  | .streamEnds =>
    match sub.phase with
    | .streaming stream => some (sub.breakStream stream)
    | _ => none
  | .taskPanics =>
    match sub.phase with
    | .streaming _ => some (sub.endStream true)
    | _ => none
  | .consume =>
    match sub.channel with
    | [] => none
    | slot :: rest => some { sub with channel := rest, lastSlotReceived := max sub.lastSlotReceived slot }
  | .cancelled => some { sub with cancel := true }

def slots (sub : GrpcSubscription) : List ℕ := sub.delivered.map Prod.fst

/-- The server starts at the first block from `fromSlot` on. Once blocks were delivered, an attempt without `fromSlot`
is not allowed. -/
def Replays (chain : ℕ → ℕ) (sub : GrpcSubscription) : GrpcEvent → Prop
  | .subscribe true start =>
    (∀ fromSlot, sub.phase = .subscribing (some fromSlot) → ∀ position, start ≤ position ↔ fromSlot ≤ chain position) ∧
      (sub.phase = .subscribing none → sub.slots = [])
  | _ => True

end GrpcSubscription

end Cloudbreak.Model.Grpc
