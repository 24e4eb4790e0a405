import Cloudbreak.Model.Filters.IndexIdentity
import Cloudbreak.ToMathlib.InsertAll

/-! # Vote stakes between the indexer and the API

The indexer upserts the stake of every voter of an epoch and prunes old epochs; the API polls the table
and replaces its snapshot when the epoch advanced or the total stake of the epoch differs. Epochs and
stakes are unsigned in both services and signed in the table.
-/

namespace Cloudbreak.Model.VoteStakes

open Cloudbreak.ToMathlib
open Filters (U64 toI64 toU64)

structure VoterStakeRow where
  votePubkey : Pubkey
  nodePubkey : Pubkey
  activatedStake : U64
  inEpochSet : Bool
deriving DecidableEq, Repr

structure SnapshotStakeData where
  epoch : U64
  voters : List VoterStakeRow

/-- The columns of `epoch_stakes` beside its key, the epoch and the voter. -/
structure EpochStakeRow where
  nodePubkey : Pubkey
  activatedStake : ℤ
  inEpochSet : Bool
deriving DecidableEq, Repr

abbrev EpochStakes := HashMap (ℤ × Pubkey) EpochStakeRow

def VoterStakeRow.key (epoch : U64) (voter : VoterStakeRow) : ℤ × Pubkey := (toI64 epoch, voter.votePubkey)

def VoterStakeRow.stored (voter : VoterStakeRow) : EpochStakeRow :=
  ⟨voter.nodePubkey, toI64 voter.activatedStake, voter.inEpochSet⟩

theorem predecessor_lt (epoch : U64) : epoch.val - 1 < 2 ^ 64 := by
  have bound := epoch.isLt
  omega

/-- `epoch.saturating_sub(1)`. -/
def previousEpoch (epoch : U64) : U64 := ⟨epoch.val - 1, predecessor_lt epoch⟩

/-- The values bound by the upsert, five for each voter. -/
def SnapshotStakeData.params (data : SnapshotStakeData) : ℕ := data.voters.length * 5

/-- A statement of the protocol binds at most this many values. -/
def maxBindParams : ℕ := 65535

/-- One transaction: the upserts in one statement, then `DELETE ... WHERE epoch < previous`. -/
def persistEpochStakes (table : EpochStakes) (data : SnapshotStakeData) : EpochStakes :=
  if data.voters.isEmpty then
    table
  else if maxBindParams < data.params then
    -- the upsert is refused and the transaction is dropped
    table
  else
    (HashMap.insertAll (VoterStakeRow.key data.epoch) VoterStakeRow.stored table data.voters).retain
      fun key _ => toI64 (previousEpoch data.epoch) ≤ key.1

structure VoterEntry where
  nodePubkey : Pubkey
  activatedStake : U64
  inEpochSet : Bool
deriving DecidableEq, Repr

structure StakesSnapshot where
  epoch : U64
  voters : HashMap Pubkey VoterEntry

def StakesSnapshot.empty : StakesSnapshot := ⟨0, ∅⟩

/-- The sum is a `u128` in the source, which holds the stakes of all voters. -/
def StakesSnapshot.totalStake (snapshot : StakesSnapshot) : ℕ :=
  snapshot.voters.sum fun _ voter => voter.activatedStake.val

/-- `SELECT MAX(epoch)`. -/
def maxEpoch (table : EpochStakes) : Option ℤ := (table.toList.map fun row => row.1.1).max?

def EpochStakeRow.entry (row : EpochStakeRow) : VoterEntry :=
  ⟨row.nodePubkey, toU64 row.activatedStake, row.inEpochSet⟩

/-- The rows of one epoch. -/
def epochRows (table : EpochStakes) (epoch : ℤ) : List ((ℤ × Pubkey) × EpochStakeRow) :=
  table.toList.filter fun row => row.1.1 = epoch

def loadLatestStakes (table : EpochStakes) : Option StakesSnapshot := do
  let epoch ← maxEpoch table
  return ⟨toU64 epoch, HashMap.insertAll (fun row => row.1.2) (fun row => row.2.entry) ∅ (epochRows table epoch)⟩

/-- One turn of the poll task. -/
def poll (table : EpochStakes) (current : StakesSnapshot) : StakesSnapshot :=
  match loadLatestStakes table with
  | none => current
  | some snapshot =>
    if snapshot.epoch > current.epoch then snapshot
    else if snapshot.epoch = current.epoch ∧ snapshot.totalStake ≠ current.totalStake then snapshot
    else current

/-- The table and the snapshot of one API node. -/
structure StakesSystem where
  table : EpochStakes
  snapshot : StakesSnapshot

inductive StakesEvent
  | persist (data : SnapshotStakeData)
  | poll
  | apiStarts

/-- The start of an API node loads what the table holds. -/
def StakesSystem.step (system : StakesSystem) : StakesEvent → Option StakesSystem
  | .persist data => some { system with table := persistEpochStakes system.table data }
  | .poll => some { system with snapshot := poll system.table system.snapshot }
  | .apiStarts => some { system with snapshot := (loadLatestStakes system.table).getD .empty }

def StakesSystem.new : StakesSystem := ⟨∅, .empty⟩

def StakesEvent.persisted : StakesEvent → Option SnapshotStakeData
  | .persist data => some data
  | _ => none

/-- The data of the last persist. -/
def lastPersisted (events : List StakesEvent) : Option SnapshotStakeData :=
  events.foldl (fun last event => event.persisted.or last) none

end Cloudbreak.Model.VoteStakes
