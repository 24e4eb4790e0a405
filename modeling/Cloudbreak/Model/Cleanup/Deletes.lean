import Cloudbreak.Model.Cleanup.Keys
import Cloudbreak.Model.Filters.IndexIdentity
import Cloudbreak.Model.SaveBlock.Store

/-! # Cleanup statements over the two tables

A block is recorded with what its cleanup needs before its insert statements run, of which any may fail, and its keys
are queued when its slot is finalized. A drain runs some of the queued keys, in statements that may fail one by one:
first those over `snapshot_accounts`, and those over `accounts` only when all of the first have succeeded. A failed
statement changes nothing, and its drain is retried.
-/

namespace Cloudbreak.Model.Cleanup

open Cloudbreak.ToMathlib
open SaveBlock (AccountRow AccountOwnerMap ChangedOwner PgOwnerPartitionsConfig Store Saving)
open Snapshot (AccountSelectorConfig)

variable {cfg : PgOwnerPartitionsConfig}

/-! ## Blocks -/

/-- The 32 bytes of a key. -/
def keyBytes (pubkey : Pubkey) : List UInt8 := Filters.IndexIdentity.programBytes pubkey

/-- The owners that the closed accounts of a slot are cleaned up under. -/
def closedCleanupPairs (ownerMap : AccountOwnerMap) (closedAccounts : List Pubkey) (slot : ℕ) : List ChangedOwner :=
  (closedAccounts.filterMap fun pubkey =>
    (ownerMap.accounts.lookup pubkey).map fun item => ⟨pubkey, item.owner⟩) ++
    (ownerMap.changedOwners.lookup slot).getD []

/-- The record of a block, with the owner map on. -/
def recordWithMap (blockTime : Option ℤ) (slot : ℕ) (saving : Saving) : AccountsReceivedPerBlock :=
  let pairs := closedCleanupPairs saving.ownerMap saving.closed slot
  { blockTime
    accounts := saving.updated.map fun row => keyBytes row.pubkey
    accountsOwners := saving.updated.map fun row => keyBytes row.owner
    closedAccounts := saving.closed.map keyBytes
    closedCleanupPubkeys := pairs.map fun pair => keyBytes pair.pubkey
    closedCleanupOwners := pairs.map fun pair => keyBytes pair.owner }

/-- The rows and closed accounts of a block, with the owner map off. -/
def saveWithoutMap (programs : AccountSelectorConfig) (slot : ℕ) (accounts : List AccountInfo) :
    List AccountRow × List Pubkey :=
  let live := accounts.filter fun account => decide (account.lamports ≠ 0)
  ((live.filter fun account => SaveBlock.isOwnerIncluded programs account.owner).map (SaveBlock.liveRow slot),
    (accounts.filter fun account => decide (account.lamports = 0)).map AccountInfo.pubkey)

/-- The masks of closed accounts with the owner map off: for each that has a row, under the owner of its latest. -/
def insertClosedAccount (tables : List AccountRow) (pubkeys : List Pubkey) (slot : ℕ) : List AccountRow :=
  let latest := distinctOn AccountRow.pubkey AccountRow.slot (tables.filter fun row => pubkeys.contains row.pubkey)
  latest.map fun row => SaveBlock.closedMask slot row.pubkey row.owner

/-- The closed accounts of a block are inserted in batches of this size. -/
def insertClosedAccountsBatchSize : ℕ := 500

/-- `chunks`, for at most `count` of them. -/
def batches {α : Type} (size : ℕ) : ℕ → List α → List (List α)
  | 0, _ => []
  | count + 1, items => if items.isEmpty then [] else items.take size :: batches size count (items.drop size)

def recordWithoutMap (blockTime : Option ℤ) (saved : List AccountRow × List Pubkey) : AccountsReceivedPerBlock where
  blockTime := blockTime
  accounts := saved.1.map fun row => keyBytes row.pubkey
  accountsOwners := []
  closedAccounts := saved.2.map keyBytes
  closedCleanupPubkeys := []
  closedCleanupOwners := []

/-- The insert statements of a block. -/
def saveStatements (ownerMapEnabled : Bool) (programs : AccountSelectorConfig) (chunkSize maxChunkBytesData : ℕ)
    (store : Store cfg) (slot : ℕ) (accounts : List AccountInfo) : List (List AccountRow) :=
  if ownerMapEnabled then
    SaveBlock.blockStatements programs chunkSize maxChunkBytesData true store.ownerMap slot accounts
  else
    let saved := saveWithoutMap programs slot accounts
    (saved.1.foldl (SaveBlock.Chunks.push chunkSize maxChunkBytesData) ⟨[], [], 0⟩).finish ++
      (batches insertClosedAccountsBatchSize saved.2.length saved.2).map fun pubkeys =>
        insertClosedAccount (store.accounts.rows ++ store.snapshotAccounts) pubkeys slot

/-- A block, of whose statements the database executes some, and its record, which does not depend on them. -/
def saveBlock (ownerMapEnabled : Bool) (programs : AccountSelectorConfig) (chunkSize maxChunkBytesData : ℕ)
    (store : Store cfg) (slot : ℕ) (blockTime : Option ℤ) (accounts : List AccountInfo)
    (executed : List (List AccountRow)) : Option (Store cfg × AccountsReceivedPerBlock) :=
  if ownerMapEnabled then
    (SaveBlock.saveBlock programs chunkSize maxChunkBytesData true store slot accounts executed).map fun saved =>
      (saved, recordWithMap blockTime slot
        (accounts.foldl (SaveBlock.saveAccount programs slot) ⟨store.ownerMap, [], []⟩))
  else if executed.Subperm
      (saveStatements ownerMapEnabled programs chunkSize maxChunkBytesData store slot accounts) then
    some ({ store with accounts := store.accounts.insertAll executed },
      recordWithoutMap blockTime (saveWithoutMap programs slot accounts))
  else none

/-! ## Statements -/

/-- `a.pubkey = k.pubkey`, and `a.owner = k.owner` in the routed form. -/
def CleanupKey.hits (key : CleanupKey) (row : AccountRow) : Bool :=
  decide (row.pubkey = key.pubkey) && key.owner.all fun owner => decide (row.owner = owner)

/-- One `DELETE` statement, for a chunk of keys with their cutoffs. -/
def deleteRows (items : List (CleanupKey × ℕ)) (rows : List AccountRow) : List AccountRow :=
  rows.filter fun row => !items.any fun item => item.1.hits row && decide (row.slot < item.2)

theorem deleteRows_sublist (items : List (CleanupKey × ℕ)) (rows : List AccountRow) :
    (deleteRows items rows).Sublist rows := List.filter_sublist

/-- The statement on the keyed table. -/
def deleteKeyed (items : List (CleanupKey × ℕ)) (table : KeyedTable cfg.primaryKey) : KeyedTable cfg.primaryKey where
  rows := deleteRows items table.rows
  keyed := table.keyed.sublist ((deleteRows_sublist items table.rows).map _)

/-- A drain under way, with the keys whose `snapshot_accounts` statement has succeeded. -/
structure Drain where
  items : List (CleanupKey × ℕ)
  snapshotCleaned : List (CleanupKey × ℕ)

/-- The indexer as the cleanup sees it: the tables, the recorded blocks, the newest finalized slot and the keys of
all finalized slots. -/
structure Cleaner (cfg : PgOwnerPartitionsConfig) where
  store : Store cfg
  received : HashMap ℕ AccountsReceivedPerBlock
  frontier : ℕ
  entries : List (CleanupKey × ℕ)
  drain : Option Drain

inductive CleanerEvent
  | save (slot : ℕ) (blockTime : Option ℤ) (accounts : List AccountInfo) (executed : List (List AccountRow))
  | finalize (slot : ℕ)
  | startDrain (items : List (CleanupKey × ℕ))
  | cleanSnapshotAccounts (chunk : List (CleanupKey × ℕ))
  | cleanAccounts (chunk : List (CleanupKey × ℕ))
  | endDrain

namespace Cleaner

def tables (cleaner : Cleaner cfg) : List AccountRow := cleaner.store.accounts.rows ++ cleaner.store.snapshotAccounts

/-- A drain takes any keys that were queued. Delete statements that fail are not events. -/
def step (ownerMapEnabled : Bool) (programs : AccountSelectorConfig) (chunkSize maxChunkBytesData : ℕ)
    (cleaner : Cleaner cfg) : CleanerEvent → Option (Cleaner cfg)
  | .save slot blockTime accounts executed =>
    (saveBlock ownerMapEnabled programs chunkSize maxChunkBytesData cleaner.store slot blockTime accounts
      executed).map fun saved =>
        { cleaner with store := saved.1, received := cleaner.received.insert slot saved.2 }
  | .finalize slot =>
    let record := (cleaner.received.lookup slot).getD .empty
    some
      { cleaner with
        received := cleaner.received.erase slot
        frontier := max cleaner.frontier slot
        entries := cleaner.entries ++ (keysForSlot record slot ownerMapEnabled).items }
  | .startDrain items =>
    if cleaner.drain.isNone ∧ items ⊆ cleaner.entries then some { cleaner with drain := some ⟨items, []⟩ } else none
  | .cleanSnapshotAccounts chunk =>
    match cleaner.drain with
    | none => none
    | some drain =>
      if chunk ⊆ drain.items then
        some
          { cleaner with
            store := { cleaner.store with snapshotAccounts := deleteRows chunk cleaner.store.snapshotAccounts }
            drain := some { drain with snapshotCleaned := drain.snapshotCleaned ++ chunk } }
      else none
  | .cleanAccounts chunk =>
    match cleaner.drain with
    | none => none
    | some drain =>
      if drain.items ⊆ drain.snapshotCleaned ∧ chunk ⊆ drain.items then
        some { cleaner with store := { cleaner.store with accounts := deleteKeyed chunk cleaner.store.accounts } }
      else none
  | .endDrain => some { cleaner with drain := none }

end Cleaner

end Cloudbreak.Model.Cleanup
