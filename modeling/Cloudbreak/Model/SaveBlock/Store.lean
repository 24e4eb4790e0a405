import Cloudbreak.Model.SaveBlock.OwnerMove

/-! # Saving a block

A block changes the owner map and then runs its insert statements. One that fails, or that the database does not
execute, is lost whole and only logged. A missing block is rebuilt from storage files, which the gap fill filters
before it is saved the same way.
-/

namespace Cloudbreak.Model.SaveBlock

open Cloudbreak.ToMathlib
open Snapshot (AccountSelectorConfig)

/-- The two tables and the owner map. -/
structure Store (cfg : PgOwnerPartitionsConfig) where
  ownerMap : AccountOwnerMap
  accounts : KeyedTable cfg.primaryKey
  snapshotAccounts : List AccountRow

variable {cfg : PgOwnerPartitionsConfig}

/-- The owner map after a block. The closed accounts are taken out once the snapshot is processed. -/
def blockOwnerMap (programs : AccountSelectorConfig) (snapshotProcessed : Bool) (ownerMap : AccountOwnerMap) (slot : ℕ)
    (accounts : List AccountInfo) : AccountOwnerMap :=
  let saving := accounts.foldl (saveAccount programs slot) ⟨ownerMap, [], []⟩
  if snapshotProcessed then (saving.ownerMap.saveClosedAccounts saving.closed slot).1 else saving.ownerMap

/-- The insert statements of a block. The masks wait until the snapshot is processed. -/
def blockStatements (programs : AccountSelectorConfig) (chunkSize maxChunkBytesData : ℕ) (snapshotProcessed : Bool)
    (ownerMap : AccountOwnerMap) (slot : ℕ) (accounts : List AccountInfo) : List (List AccountRow) :=
  let writes := BlockWrites.of programs chunkSize maxChunkBytesData ownerMap slot accounts
  if snapshotProcessed then writes.statements else writes.chunks

instance lawfulBEq_statement : LawfulBEq (List AccountRow) := inferInstance

/-- Saves a block, of whose statements the database executes some, in some order. -/
def saveBlock (programs : AccountSelectorConfig) (chunkSize maxChunkBytesData : ℕ) (snapshotProcessed : Bool)
    (store : Store cfg) (slot : ℕ) (accounts : List AccountInfo) (executed : List (List AccountRow)) :
    Option (Store cfg) :=
  if executed.Subperm
      (blockStatements programs chunkSize maxChunkBytesData snapshotProcessed store.ownerMap slot accounts) then
    some
      { store with
        ownerMap := blockOwnerMap programs snapshotProcessed store.ownerMap slot accounts
        accounts := store.accounts.insertAll executed }
  else none

/-- What the gap fill takes of a storage file: with included programs, their accounts and every closed one. -/
def gapFillKeeps (programs : AccountSelectorConfig) (account : AccountInfo) : Bool :=
  if programs.includePrograms ≠ [] then
    !(!programs.includePrograms.contains account.owner && decide (account.lamports > 0))
  else !programs.excludePrograms.contains account.owner

/-- A missing block, rebuilt from the storage files and saved. -/
def saveRepaired (programs : AccountSelectorConfig) (chunkSize maxChunkBytesData : ℕ) (snapshotProcessed : Bool)
    (store : Store cfg) (slot : ℕ) (accounts : List AccountInfo) (executed : List (List AccountRow)) :
    Option (Store cfg) :=
  saveBlock programs chunkSize maxChunkBytesData snapshotProcessed store slot (accounts.filter (gapFillKeeps programs))
    executed

/-- What a query for the accounts of a program sees of one: its newest row there, if it has lamports. -/
def Store.visible (store : Store cfg) (program pubkey : Pubkey) : Option AccountRow :=
  (((store.snapshotAccounts ++ store.accounts.rows).filter fun row =>
    row.owner = program ∧ row.pubkey = pubkey).argmax AccountRow.slot).filter fun row => row.lamports > 0

/-- A block on its way into the store. -/
structure SaveEvent where
  slot : ℕ
  accounts : List AccountInfo
  snapshotProcessed : Bool
  executed : List (List AccountRow)

def Store.step (programs : AccountSelectorConfig) (chunkSize maxChunkBytesData : ℕ) (store : Store cfg)
    (event : SaveEvent) : Option (Store cfg) :=
  saveBlock programs chunkSize maxChunkBytesData event.snapshotProcessed store event.slot event.accounts event.executed

end Cloudbreak.Model.SaveBlock
