import Cloudbreak.Model.Filters.IndexIdentity
import Cloudbreak.Model.Processed.Store
import Cloudbreak.ToMathlib.InsertAll

/-! # Reading several accounts

A request with blocks takes every key that the blocks wrote from memory and reads the others from Postgres
at the anchor. A jsonParsed token account also gets the data of its mint, which may be in memory, joined to
its row, or read by one more query. The queries are parameters: from keys and a slot bound to rows, `none`
where the query fails. Rows stand here with their columns decoded.
-/

namespace Cloudbreak.Model.Processed

open Cloudbreak.ToMathlib

def token2022ProgramId : Pubkey := 0x06ddf6e1ee758fde18425dbce46ccddab61afc4d83b90d27febdf928d8a18bfc

def isTokenProgram (program : Pubkey) : Bool := program = Filters.tokenProgramId || program = token2022ProgramId

/-- The mint of a token-program account with at least 32 bytes of data. -/
def tokenMint (owner : Pubkey) (data : List UInt8) : Option Pubkey :=
  if !isTokenProgram owner || data.length < 32 then none else Filters.pubkeyTryFrom (data.take 32)

/-- A live account as the API answers it. -/
structure Account where
  lamports : ℕ
  owner : Pubkey
  executable : Bool
  rentEpoch : ℕ
  data : List UInt8
  mintData : Option (List UInt8)
deriving DecidableEq, Repr

/-- A row of one of the account queries; the plain templates have no `mint_data` column. -/
structure AccountRow where
  pubkey : Pubkey
  account : LiveAccount
  mintData : Option (List UInt8)

abbrev Query := List Pubkey → ℕ → Option (List AccountRow)

namespace Account

def fromLive (account : LiveAccount) : Account :=
  { lamports := account.lamports
    owner := account.owner
    executable := account.executable
    rentEpoch := account.rentEpoch
    data := account.data
    mintData := none }

def fromRow (withMint : Bool) (row : AccountRow) : Account :=
  { fromLive row.account with mintData := if withMint then row.mintData else none }

def tokenMint (account : Account) : Option Pubkey := Processed.tokenMint account.owner account.data

def setMintData (account : Account) (mintData : Option (List UInt8)) : Account := { account with mintData }

end Account

/-- Pairs each key with its account from the blocks, from Postgres, or `none`. -/
def inKeyOrder (keys : List Pubkey) (inBlocks : List ProcessedAccount) (found : HashMap Pubkey Account) :
    List (Option Account) :=
  keys.zipWith (fun key fromBlocks =>
    match fromBlocks with
    | .live account => some (.fromLive account)
    | .closed => none
    | .unknown => found.lookup key) inBlocks

/-- One turn of the first loop: the account, and the mint that is left to query for it. -/
def resolveFromBlocks (blocks : ProcessedBlocks) (account : Option Account) (fromBlocks : ProcessedAccount) :
    Option Account × Option Pubkey :=
  match account with
  | none => (none, none)
  | some account =>
    match account.tokenMint with
    | none => (some account, none)
    | some mint =>
      match blocks.getAccount mint with
      | .live mint => (some (account.setMintData (some mint.data)), none)
      | .closed => (some (account.setMintData none), none)
      -- the joined mint stays; an account from the blocks has none
      | .unknown => (some account, if fromBlocks = .unknown then none else some mint)

/-- The positions of the accounts whose mint is left to query. -/
def queriedMints (resolved : List (Option Account × Option Pubkey)) : List (ℕ × Pubkey) :=
  resolved.zipIdx.filterMap fun entry => entry.1.2.map fun mint => (entry.2, mint)

/-- Sorted mints are deduplicated by neighbours, which leaves each once. -/
def resolveMints (getMultipleAccounts : Query) (blocks : ProcessedBlocks) (accounts : List (Option Account))
    (inBlocks : List ProcessedAccount) : Option (List (Option Account)) := do
  let resolved := accounts.zipWith (resolveFromBlocks blocks) inBlocks
  let accounts := resolved.map Prod.fst
  let queried := queriedMints resolved
  if queried.isEmpty then
    return accounts
  let mints := ((queried.map Prod.snd).insertionSort (· ≤ ·)).dedup
  let rows ← getMultipleAccounts mints blocks.anchorSlot
  let found := HashMap.insertAll AccountRow.pubkey (fun row => row.account.data) ∅ rows
  return queried.foldl (fun accounts entry =>
    accounts.modify entry.1 fun account => account.map (·.setMintData (found.lookup entry.2))) accounts

/-- The keys that the blocks did not write. -/
def unknownKeys (keys : List Pubkey) (inBlocks : List ProcessedAccount) : List Pubkey :=
  ((keys.zip inBlocks).filter fun entry => entry.2 = .unknown).map Prod.fst

/-- No query runs where memory answers every key. -/
def fetchUnknown (sqlTemplate : Query) (unknown : List Pubkey) (bound : ℕ) : Option (List AccountRow) :=
  if unknown.isEmpty then some [] else sqlTemplate unknown bound

/-- `None` inside the list is an absent or closed key; the outer one is a failed query. -/
def readAccounts (sqlTemplate getMultipleAccounts : Query) (blocks : Option ProcessedBlocks) (keys : List Pubkey)
    (latestSlot : ℕ) (withMint : Bool) : Option (List (Option Account)) := do
  let inBlocks := blocks.elim (List.replicate keys.length .unknown) fun blocks => keys.map blocks.getAccount
  let unknown := unknownKeys keys inBlocks
  let rows ← fetchUnknown sqlTemplate unknown (blocks.elim latestSlot ProcessedBlocks.anchorSlot)
  let found := HashMap.insertAll AccountRow.pubkey (Account.fromRow withMint) ∅ rows
  let accounts := inKeyOrder keys inBlocks found
  match blocks, withMint with
  | some blocks, true => resolveMints getMultipleAccounts blocks accounts inBlocks
  | _, _ => return accounts

/-- A content of the two account tables: the version of a key that was written at a slot. -/
abbrev Database := Pubkey → ℕ → Option AccountEntry

namespace Database

/-- `WHERE slot <= bound ORDER BY slot DESC LIMIT 1`. -/
def newest (database : Database) (pubkey : Pubkey) : ℕ → Option AccountEntry
  | 0 => database pubkey 0
  | bound + 1 => (database pubkey (bound + 1)).or (newest database pubkey bound)

/-- The newest version, unless it is closed. -/
def live (database : Database) (pubkey : Pubkey) (bound : ℕ) : Option LiveAccount :=
  match database.newest pubkey bound with
  | some (.live account) => some account
  | _ => none

/-- The row that the templates with the mint join return for a key. -/
def row (database : Database) (pubkey : Pubkey) (bound : ℕ) : Option AccountRow :=
  (database.live pubkey bound).map fun account =>
    { pubkey
      account
      mintData := (tokenMint account.owner account.data).bind fun mint =>
        (database.live mint bound).map LiveAccount.data }

/-- The account that a read of the database alone answers. -/
def read (database : Database) (withMint : Bool) (pubkey : Pubkey) (bound : ℕ) : Option Account :=
  (database.row pubkey bound).map (Account.fromRow withMint)

end Database

/-- The write of a key in the served block of a slot. -/
def ProcessedBlocks.writtenAt (blocks : ProcessedBlocks) (pubkey : Pubkey) (slot : ℕ) : Option AccountEntry :=
  (blocks.blocks.find? fun block => block.slot = slot).bind fun block => block.accounts.lookup pubkey

/-- The database with the writes of the blocks above the anchor as further rows. -/
def Database.withBlocks (database : Database) (blocks : ProcessedBlocks) : Database := fun pubkey slot =>
  if blocks.anchorSlot < slot then (blocks.writtenAt pubkey slot).or (database pubkey slot) else database pubkey slot

end Cloudbreak.Model.Processed
