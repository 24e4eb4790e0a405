import Cloudbreak.ToMathlib.Bytea
import Cloudbreak.ToMathlib.DistinctOn
import Cloudbreak.Model.Snapshot.LtHash

/-! # The lattice hash of the database

The two account tables are scanned in 65536 ranges of keys. Each query unites both tables, filtered by slot, key
and owner, and keeps the newest row of every key; the live rows are hashed. In which order the database meets the
rows of a query, which decides between rows of one stamp, is a parameter. The progress log is left out.
-/

namespace Cloudbreak.Model.Snapshot

open Cloudbreak.ToMathlib

/-- A row of either table. -/
structure AccountRow where
  pubkey : Pubkey
  lamports : ℤ
  owner : Pubkey
  executable : Bool
  data : List UInt8
  slot : ℤ
  writeVersion : ℤ
deriving DecidableEq, Repr

def AccountRow.stamp (row : AccountRow) : ℤ ×ₗ ℤ := toLex (row.slot, row.writeVersion)

inductive OwnerFilter
  | all
  | isIn (owners : List Pubkey)
  | notIn (owners : List Pubkey)

namespace OwnerFilter

def holds (owner : Pubkey) : OwnerFilter → Bool
  | all => true
  | isIn owners => owners.any fun other => other = owner
  | notIn owners => owners.all fun other => other ≠ owner

end OwnerFilter

def buildOwnerFilter (programs : AccountSelectorConfig) : OwnerFilter :=
  if programs.includePrograms ≠ [] then .isIn programs.includePrograms
  else if programs.excludePrograms = [] then .all
  else .notIn programs.excludePrograms

/-- The two bytes of a prefix. -/
def batchBytes (pre : ℕ) : List UInt8 := [UInt8.ofNat (pre / 256), UInt8.ofNat (pre % 256)]

/-- The bounds of a batch on the key; the last batch has no upper one. -/
def inBatch (pre : ℕ) (pubkey : Pubkey) : Bool :=
  !Bytea.lt (Pubkey.toBytes pubkey) (batchBytes pre) &&
    (decide (pre = 0xFFFF) || Bytea.lt (Pubkey.toBytes pubkey) (batchBytes (pre + 1)))

/-- The `WHERE` clause of a batch on either table. -/
def selectsRow (targetSlot : ℕ) (ownerFilter : OwnerFilter) (pre : ℕ) (row : AccountRow) : Bool :=
  decide (row.slot ≤ targetSlot) && inBatch pre row.pubkey && ownerFilter.holds row.owner

section Query

variable (arrange : ℕ → List AccountRow → List AccountRow)

def queryAccountsBatch (accounts snapshotAccounts : List AccountRow) (targetSlot : ℕ) (ownerFilter : OwnerFilter)
    (pre : ℕ) : List AccountRow :=
  let combined := accounts.filter (selectsRow targetSlot ownerFilter pre) ++
    snapshotAccounts.filter (selectsRow targetSlot ownerFilter pre)
  distinctOn AccountRow.pubkey AccountRow.stamp (arrange pre combined)

def AccountRow.ltHash (expand : List UInt8 → LtHash) (row : AccountRow) : LtHash :=
  ltHashAccount expand ⟨row.pubkey, row.owner, row.lamports.toNat, row.data, row.executable⟩

/-- One row of an answer; a closed account counts nothing. -/
def hashRow (expand : List UInt8 → LtHash) (state : LtHash × ℕ) (row : AccountRow) : LtHash × ℕ :=
  if row.lamports ≤ 0 then state else (state.1 + row.ltHash expand, state.2 + 1)

def computeDbLtHash (expand : List UInt8 → LtHash) (accounts snapshotAccounts : List AccountRow) (targetSlot : ℕ)
    (programs : AccountSelectorConfig) : LtHash × ℕ :=
  let ownerFilter := buildOwnerFilter programs
  (List.range 0x10000).foldl
    (fun state pre =>
      (queryAccountsBatch arrange accounts snapshotAccounts targetSlot ownerFilter pre).foldl (hashRow expand) state)
    (0, 0)

end Query

end Cloudbreak.Model.Snapshot
