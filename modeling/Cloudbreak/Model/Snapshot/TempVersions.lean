import Cloudbreak.Model.Account

/-! # The handler that fills the temporary table

Account versions arrive in chunks over a channel and are inserted in batches. Every full batch is inserted by
a task of its own, at most ten at a time; a full set of tasks is waited on before the next one is spawned. Once
the channel is closed the handler joins the remaining tasks and inserts the rest itself.
-/

namespace Cloudbreak.Model.Snapshot

structure SnapshotAccountVersion where
  pubkey : Pubkey
  slot : ℕ
  owner : Pubkey
deriving DecidableEq, Repr

def insertBatchSize : ℕ := 1000

/-- Members of the task set beyond which the handler waits for one. -/
def maxConcurrentInserts : ℕ := 10

/-- How an insert task ends: it may fail, panic or be cancelled. -/
inductive Outcome
  | inserted
  | failed (error : String)
  | joinError (error : String)
deriving DecidableEq, Repr

def Outcome.result : Outcome → Except String Unit
  | inserted => .ok ()
  | failed error => .error error
  | joinError error => .error error

/-- A spawned insert, with its outcome once it has completed. -/
structure InsertTask where
  batch : List SnapshotAccountVersion
  outcome : Option Outcome

structure Insert where
  batch : List SnapshotAccountVersion
  outcome : Outcome

inductive HandlerPhase
  | receiving
  | full
  | draining
  | returned (result : Except String Unit)

/-- The handler. The last two fields are kept for the statements only: the inserts joined inside the receive
loop, and those joined or made after it. -/
structure VersionsHandler where
  buffered : List SnapshotAccountVersion
  joinSet : List InsertTask
  phase : HandlerPhase
  joinedInLoop : List Insert
  joinedAfter : List Insert

inductive HandlerEvent
  | receive (chunk : List SnapshotAccountVersion)
  | completes (index : ℕ) (outcome : Outcome)
  | joinNext (index : ℕ)
  | close
  | insertRest (outcome : Outcome)
  | done

namespace VersionsHandler

def new : VersionsHandler := ⟨[], [], .receiving, [], []⟩

/-- Spawns the insert of what is buffered. -/
def spawn (handler : VersionsHandler) : VersionsHandler :=
  { handler with
    buffered := []
    joinSet := handler.joinSet ++ [⟨handler.buffered, none⟩]
    phase := .receiving }

def receive (handler : VersionsHandler) (chunk : List SnapshotAccountVersion) : VersionsHandler :=
  let handler := { handler with buffered := handler.buffered ++ chunk }
  if handler.buffered.length ≥ insertBatchSize then
    if handler.joinSet.length ≥ maxConcurrentInserts then { handler with phase := .full } else handler.spawn
  else handler

/-- Joins a completed task. The result of one joined inside the receive loop is not looked at. -/
def joinNext (handler : VersionsHandler) (index : ℕ) (task : Insert) : Option VersionsHandler :=
  let handler := { handler with joinSet := handler.joinSet.eraseIdx index }
  match handler.phase with
  | .full => some { handler with joinedInLoop := handler.joinedInLoop ++ [task] }.spawn
  | .draining =>
    some { handler with
      joinedAfter := handler.joinedAfter ++ [task]
      phase :=
        match task.outcome.result with
        | .ok () => .draining
        | .error error => .returned (.error error) }
  | _ => none

def step (handler : VersionsHandler) : HandlerEvent → Option VersionsHandler
  | .receive chunk =>
    match handler.phase with
    | .receiving => some (handler.receive chunk)
    | _ => none
  | .completes index outcome =>
    match handler.joinSet[index]? with
    | some ⟨batch, none⟩ => some { handler with joinSet := handler.joinSet.set index ⟨batch, some outcome⟩ }
    | _ => none
  | .joinNext index =>
    match handler.joinSet[index]? with
    | some ⟨batch, some outcome⟩ => handler.joinNext index ⟨batch, outcome⟩
    | _ => none
  | .close =>
    match handler.phase with
    | .receiving => some { handler with phase := .draining }
    | _ => none
  | .insertRest outcome =>
    match handler.phase with
    | .draining =>
      if handler.joinSet = [] ∧ handler.buffered ≠ [] then
        some { handler with
          buffered := []
          joinedAfter := handler.joinedAfter ++ [⟨handler.buffered, outcome⟩]
          phase := .returned outcome.result }
      else none
    | _ => none
  | .done =>
    match handler.phase with
    | .draining =>
      if handler.joinSet = [] ∧ handler.buffered = [] then some { handler with phase := .returned (.ok ()) } else none
    | _ => none

end VersionsHandler

end Cloudbreak.Model.Snapshot
