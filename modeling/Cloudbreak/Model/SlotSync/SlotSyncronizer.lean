import Cloudbreak.Model.Health.ServiceHealth
import Cloudbreak.Model.Processed.Store

/-! # The slot syncronizer

The indexer writes the `slots` table. A trigger sends every real change of a row, and the API's task applies the
notifications one by one in the order they were sent: the mint cache first, then the slots, then the anchor. A bad
notification panics, which ends the service.
-/

namespace Cloudbreak.Model.SlotSync

open Health (CommitmentLevel Database SlotInsert)
open Processed (Anchor)

/-! ## The trigger -/

/-- One `slots` row, from a notification payload. -/
structure SlotRow where
  commitment : CommitmentLevel
  slot : ℕ
  blockTime : ℤ
  health : Bool
  blockhash : Option String
deriving DecidableEq, Repr

def SlotRow.of (commitment : CommitmentLevel) (row : Health.SlotRow) : SlotRow :=
  ⟨commitment, row.slot, row.blockTime, row.health, row.blockhash⟩

/-- An update that changes nothing sends nothing. -/
def notifySlotsChange (before after : Database) (commitment : CommitmentLevel) : List SlotRow :=
  if after.slots commitment = before.slots commitment then []
  else (after.slots commitment).toList.map (SlotRow.of commitment)

/-! ## The task -/

structure SlotData where
  slot : ℕ
  blockTime : ℤ
deriving DecidableEq, Repr

def SlotData.default : SlotData := ⟨0, 0⟩

structure SlotSyncronizerData where
  confirmedSlot : SlotData
  finalizedSlot : SlotData
  healthy : Bool
deriving DecidableEq, Repr

namespace SlotSyncronizerData

def default : SlotSyncronizerData := ⟨.default, .default, false⟩

def getSlotForCommitment (data : SlotSyncronizerData) : CommitmentLevel → ℕ
  | .finalized => data.finalizedSlot.slot
  | .confirmed => data.confirmedSlot.slot
  | .processed => data.confirmedSlot.slot

def getBlockTimeForCommitment (data : SlotSyncronizerData) : CommitmentLevel → ℤ
  | .finalized => data.finalizedSlot.blockTime
  | .confirmed => data.confirmedSlot.blockTime
  | .processed => data.confirmedSlot.blockTime

end SlotSyncronizerData

/-- Whether the processed accounts and the mint cache are enabled. -/
structure SyncConfig where
  processedAccounts : Bool
  mintCache : Bool

/-- What the task has published, and the rows of its calls of `onConfirmed` of the mint cache. -/
structure Syncronizer where
  data : SlotSyncronizerData
  anchor : Option Anchor
  confirmed : List SlotRow
deriving DecidableEq, Repr

namespace Syncronizer

def new : Syncronizer := ⟨.default, none, []⟩

def confirmedAdvance (sync : Syncronizer) (row : SlotRow) : Bool :=
  row.commitment = .confirmed && decide (row.slot > sync.data.confirmedSlot.slot)

/-- Slots never move backwards. A confirmed advance publishes the anchor, and panics without a blockhash. -/
def apply (processedAccounts : Bool) (sync : Syncronizer) (row : SlotRow) : Option Syncronizer :=
  let data := { sync.data with healthy := row.health }
  match row.commitment with
  | .processed => none
  | .finalized =>
    if row.slot > data.finalizedSlot.slot then
      some { sync with data := { data with finalizedSlot := ⟨row.slot, row.blockTime⟩ } }
    else some { sync with data }
  | .confirmed =>
    if row.slot > data.confirmedSlot.slot then
      let advanced := { sync with data := { data with confirmedSlot := ⟨row.slot, row.blockTime⟩ } }
      if processedAccounts then
        row.blockhash.map fun blockhash => { advanced with anchor := some ⟨row.slot, blockhash⟩ }
      else some advanced
    else some { sync with data }

/-- One notification. -/
def receive (config : SyncConfig) (sync : Syncronizer) (row : SlotRow) : Option Syncronizer :=
  let told :=
    if config.mintCache && sync.confirmedAdvance row then { sync with confirmed := sync.confirmed ++ [row] }
    else sync
  told.apply config.processedAccounts row

end Syncronizer

/-! ## The system -/

/-- The table, the notifications under way, the task, and every notification sent since it listens. -/
structure SlotFeed where
  db : Database
  queue : List SlotRow
  sync : Syncronizer
  sent : List SlotRow

/-- `order` has the rows that the statement of a health update finds, in the order it updates them. -/
inductive SlotEvent where
  | insertSlot (insert : SlotInsert)
  | updateServiceHealth (healthy : Bool) (order : List CommitmentLevel)
  | receive
deriving DecidableEq, Repr

namespace SlotFeed

/-- The task starts to listen over the rows that are there. -/
def listen (db : Database) : SlotFeed := ⟨db, [], .new, []⟩

def write (feed : SlotFeed) (after : Database) (order : List CommitmentLevel) : SlotFeed :=
  let notified := order.flatMap (notifySlotsChange feed.db after)
  { feed with db := after, queue := feed.queue ++ notified, sent := feed.sent ++ notified }

def step (config : SyncConfig) (feed : SlotFeed) : SlotEvent → Option SlotFeed
  | .insertSlot insert => some (feed.write (feed.db.insertSlot insert) [insert.commitment])
  | .updateServiceHealth healthy order => some (feed.write (feed.db.updateServiceHealth healthy order) order)
  | .receive =>
    match feed.queue with
    | [] => none
    | row :: rest => (feed.sync.receive config row).map fun sync => { feed with sync, queue := rest }

end SlotFeed

/-- The indexer inserts a confirmed slot with its blockhash and a finalized one. The health update writes each row it
finds once. -/
def SlotEvent.Allowed (feed : SlotFeed) : SlotEvent → Prop
  | .insertSlot insert =>
    insert.commitment ≠ .processed ∧ (insert.commitment = .confirmed → insert.blockhash.isSome)
  | .updateServiceHealth _ order =>
    order.Nodup ∧ ∀ commitment ∈ order, (feed.db.slots commitment).isSome
  | .receive => True

/-- The table before the task listens, as earlier inserts left it. -/
def Inserted (db : Database) : Prop :=
  db.slots .processed = none ∧ ∀ row, db.slots .confirmed = some row → row.blockhash.isSome

end Cloudbreak.Model.SlotSync
