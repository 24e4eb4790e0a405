import Mathlib.Data.Finset.Insert
import Mathlib.Logic.Function.Basic
import Cloudbreak.ToMathlib.Run

/-! # Service health and its copy in the database

The reasons live in memory behind a mutex. A change that turns the verdict is decided there and written to
the database after the mutex is released: one transaction sets the flag and the health of every slots row that
its `UPDATE` finds, and commits later. A block or a finalized slot samples the verdict and then stamps it on a row
it inserts.
-/

namespace Cloudbreak.Model.Health

open Cloudbreak.ToMathlib

inductive HealthReason where
  | startup
  | gapFill
deriving DecidableEq, Repr

inductive CommitmentLevel where
  | processed
  | confirmed
  | finalized
deriving DecidableEq, Repr

/-- A row of `slots`, one for each commitment. -/
structure SlotRow where
  slot : ℕ
  blockTime : ℤ
  health : Bool
  blockhash : Option String
deriving DecidableEq, Repr

/-- The `service_health` flag and the `slots` table. -/
structure Database where
  healthy : Bool
  slots : CommitmentLevel → Option SlotRow

/-- The rows that an `UPDATE` of all of `slots` finds. -/
def Database.present (db : Database) : List CommitmentLevel :=
  [.processed, .confirmed, .finalized].filter fun commitment => (db.slots commitment).isSome

/-- One transaction for the flag and the slots rows that its `UPDATE` has found, as it commits. -/
def Database.updateServiceHealth (db : Database) (healthy : Bool) (found : List CommitmentLevel) : Database where
  healthy := healthy
  slots commitment := (db.slots commitment).map fun row =>
    if commitment ∈ found then { row with health := healthy } else row

/-- A transaction between its `UPDATE` and its `COMMIT`. It holds the locks of the flag and of the rows it found. -/
structure HealthUpdate where
  healthy : Bool
  found : List CommitmentLevel
deriving DecidableEq, Repr

/-- A slot insert that has sampled the verdict. -/
structure SlotInsert where
  slot : ℕ
  blockTime : Option ℤ
  blockhash : Option String
  commitment : CommitmentLevel
  healthy : Bool
deriving DecidableEq, Repr

/-- `health` is stamped only on insert. `updateServiceHealth` owns it on existing rows. -/
def Database.insertSlot (db : Database) (insert : SlotInsert) : Database :=
  let excluded : SlotRow := ⟨insert.slot, insert.blockTime.getD 0, insert.healthy, insert.blockhash⟩
  match db.slots insert.commitment with
  | none => { db with slots := Function.update db.slots insert.commitment (some excluded) }
  | some row =>
    if excluded.slot > row.slot then
      { db with slots := Function.update db.slots insert.commitment (some { excluded with health := row.health }) }
    else db

/-- The reasons, the writes decided but not begun in the order of their decision, the one that has run its statements,
the inserts that have sampled, and the database. -/
structure ServiceHealth where
  reasons : Finset HealthReason
  updates : List Bool
  updating : Option HealthUpdate
  inserts : List SlotInsert
  db : Database

inductive HealthEvent where
  | addReason (reason : HealthReason)
  | removeReason (reason : HealthReason)
  | sampleForInsert (slot : ℕ) (blockTime : Option ℤ) (blockhash : Option String) (commitment : CommitmentLevel)
  | updateRuns (position : ℕ)
  | updateCommits
  | insertCompletes (position : ℕ)
deriving DecidableEq

namespace ServiceHealth

/-- Starts in the startup reason and writes nothing. -/
def new (db : Database) : ServiceHealth := ⟨{.startup}, [], none, [], db⟩

def isHealthy (health : ServiceHealth) : Bool := decide (health.reasons = ∅)

def addReason (health : ServiceHealth) (reason : HealthReason) : ServiceHealth :=
  let newlyAdded := decide (reason ∉ health.reasons)
  { health with
    reasons := insert reason health.reasons
    updates := if newlyAdded then health.updates ++ [false] else health.updates }

def removeReason (health : ServiceHealth) (reason : HealthReason) : ServiceHealth :=
  let wasPresent := decide (reason ∈ health.reasons)
  let reasons := health.reasons.erase reason
  { health with
    reasons
    updates := if wasPresent && decide (reasons = ∅) then health.updates ++ [true] else health.updates }

/-- One hold of the mutex, or one step in the database. The upsert of the flag makes the update transactions run one
after another, and an insert into a row that one of them has found waits for its `COMMIT`. -/
def step (health : ServiceHealth) : HealthEvent → Option ServiceHealth
  | .addReason reason => some (health.addReason reason)
  | .removeReason reason => some (health.removeReason reason)
  | .sampleForInsert slot blockTime blockhash commitment =>
    some { health with
      inserts := health.inserts ++ [⟨slot, blockTime, blockhash, commitment, health.isHealthy⟩] }
  | .updateRuns position =>
    if health.updating.isSome then none
    else
      (health.updates[position]?).map fun healthy =>
        { health with updates := health.updates.eraseIdx position, updating := some ⟨healthy, health.db.present⟩ }
  | .updateCommits =>
    health.updating.map fun update =>
      { health with updating := none, db := health.db.updateServiceHealth update.healthy update.found }
  | .insertCompletes position =>
    (health.inserts[position]?).bind fun insert =>
      if health.updating.any fun update => insert.commitment ∈ update.found then none
      else some { health with inserts := health.inserts.eraseIdx position, db := health.db.insertSlot insert }

end ServiceHealth

end Cloudbreak.Model.Health
