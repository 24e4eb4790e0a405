import Cloudbreak.Model.SaveBlock.OwnerMap
import Cloudbreak.ToMathlib.DistinctOn
import Cloudbreak.ToMathlib.KeyedTable

/-! # The statements of a block, and the queries

A block runs one insert statement for each chunk of its rows and one for its masks, all at the same time. The primary
key of the tables has the owner in it only where they are partitioned by owner. A query may meet rows of the same
slot in any order.
-/

namespace Cloudbreak.Model.SaveBlock

open Cloudbreak.ToMathlib
open Snapshot (AccountSelectorConfig)

structure PgOwnerPartitionsConfig where
  hashPartitions : Bool
  listPartitions : Bool
deriving DecidableEq, Repr

namespace PgOwnerPartitionsConfig

def isOwnerPartitioned (cfg : PgOwnerPartitionsConfig) : Bool := cfg.hashPartitions || cfg.listPartitions

/-- `PRIMARY KEY (owner, pubkey, slot)`, or `PRIMARY KEY (pubkey, slot)`. -/
def primaryKey (cfg : PgOwnerPartitionsConfig) (row : AccountRow) : Option Pubkey × Pubkey × ℕ :=
  (if cfg.isOwnerPartitioned then some row.owner else none, row.pubkey, row.slot)

end PgOwnerPartitionsConfig

/-! ## Statements -/

/-- The chunks of a block's rows, the last one still open. -/
structure Chunks where
  chunks : List (List AccountRow)
  currentChunk : List AccountRow
  currentChunkBytes : ℕ

def Chunks.push (chunkSize maxChunkBytesData : ℕ) (chunks : Chunks) (row : AccountRow) : Chunks :=
  let currentChunk := chunks.currentChunk ++ [row]
  let currentChunkBytes := chunks.currentChunkBytes + row.data.length
  if chunkSize ≤ currentChunk.length ∨ maxChunkBytesData ≤ currentChunkBytes then
    ⟨chunks.chunks ++ [currentChunk], [], 0⟩
  else ⟨chunks.chunks, currentChunk, currentChunkBytes⟩

def Chunks.finish (chunks : Chunks) : List (List AccountRow) :=
  if chunks.currentChunk.isEmpty then chunks.chunks else chunks.chunks ++ [chunks.currentChunk]

/-- The insert statements of a block once the snapshot is processed: the chunks and the masks. -/
structure BlockWrites where
  chunks : List (List AccountRow)
  masks : List AccountRow

namespace BlockWrites

def of (programs : AccountSelectorConfig) (chunkSize maxChunkBytesData : ℕ) (ownerMap : AccountOwnerMap) (slot : ℕ)
    (accounts : List AccountInfo) : BlockWrites :=
  let saving := accounts.foldl (saveAccount programs slot) ⟨ownerMap, [], []⟩
  let chunks := saving.updated.foldl (Chunks.push chunkSize maxChunkBytesData) ⟨[], [], 0⟩
  ⟨chunks.finish, (saving.ownerMap.saveClosedAccounts saving.closed slot).2⟩

def statements (writes : BlockWrites) : List (List AccountRow) := writes.chunks ++ [writes.masks]

def rows (writes : BlockWrites) : List AccountRow := writes.chunks.flatten ++ writes.masks

end BlockWrites

/-- The row of a live account. -/
def liveRow (slot : ℕ) (account : AccountInfo) : AccountRow :=
  ⟨account.pubkey, account.owner, account.lamports, slot, account.data⟩

/-! ## Queries -/

/-- The versions of an account, as `ORDER BY slot DESC` may return them. -/
structure AllVersions (tables : List AccountRow) (pubkey : Pubkey) (latestSlot : ℕ) (versions : List AccountRow) :
    Prop where
  rows : versions.Perm (tables.filter fun row => decide (row.pubkey = pubkey ∧ row.slot ≤ latestSlot))
  descending : versions.Pairwise fun first second => second.slot ≤ first.slot

def getAccountInfo (versions : List AccountRow) : Option AccountRow :=
  versions.head?.filter fun row => decide (row.lamports > 0)

/-- The rows of a program, as they may be scanned. -/
def ProgramAccounts (tables : List AccountRow) (program : Pubkey) (latestSlot : ℕ) (scanned : List AccountRow) : Prop :=
  scanned.Perm (tables.filter fun row => decide (row.owner = program ∧ row.slot ≤ latestSlot))

def getProgramAccounts (scanned : List AccountRow) : List AccountRow :=
  (distinctOn AccountRow.pubkey AccountRow.slot scanned).filter fun row => decide (row.lamports > 0)

end Cloudbreak.Model.SaveBlock
