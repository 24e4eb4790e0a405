import Cloudbreak.Model.LargestAccounts.Persist
import Cloudbreak.Model.Filters.IndexIdentity

/-! # The packed record of a row

A row of the table holds its entries as bytes: a key and a little-endian amount for each, one after another. A read
decodes the bytes of the newest row at or below its slot.
-/

namespace Cloudbreak.Model.LargestAccounts

open Filters (pubkeyTryFrom)
open Filters.IndexIdentity (programBytes)

/-- A 32-byte key and a 64-bit amount. -/
def recordEntrySize : ℕ := 40

def encodeEntry (row : Pubkey × ℕ) : List UInt8 := programBytes row.1 ++ LittleEndian.toBytes 8 row.2

def encodeRecord (rows : List (Pubkey × ℕ)) : List UInt8 := rows.flatMap encodeEntry

/-- The chunks of one size, without what is left over at the end. -/
def chunksExact (size : ℕ) (bytes : List UInt8) : List (List UInt8) :=
  (List.range (bytes.length / size)).map fun i => (bytes.drop (i * size)).take size

def decodeEntry (chunk : List UInt8) : Option (Pubkey × ℕ) := do
  let pubkey ← pubkeyTryFrom (chunk.take 32)
  let amount := chunk.drop 32
  if amount.length = 8 then some (pubkey, LittleEndian.ofBytes amount) else none

def decodeRecord (bytes : List UInt8) : Option (List (Pubkey × ℕ)) :=
  if bytes.length % recordEntrySize ≠ 0 then none else (chunksExact recordEntrySize bytes).mapM decodeEntry

/-- A row as it is stored. -/
structure StoredRecord where
  mint : Pubkey
  slot : ℕ
  record : List UInt8
deriving DecidableEq, Repr

def MintRecord.stored (row : MintRecord) : StoredRecord := ⟨row.mint, row.slot, encodeRecord row.rows⟩

inductive FetchError where
  | corrupt (mint : Pubkey)
deriving DecidableEq, Repr

/-- The newest record of a mint at or below a slot, decoded. -/
def fetchStored (table : List StoredRecord) (mint : Pubkey) (maxSlot : ℕ) :
    Except FetchError (Option (List (Pubkey × ℕ))) :=
  match (table.filter fun row => row.mint = mint ∧ row.slot ≤ maxSlot).argmax StoredRecord.slot with
  | none => .ok none
  | some row => (decodeRecord row.record).elim (.error (.corrupt mint)) fun rows => .ok (some rows)

end Cloudbreak.Model.LargestAccounts
