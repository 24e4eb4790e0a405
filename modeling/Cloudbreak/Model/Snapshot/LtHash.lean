import Cloudbreak.ToMathlib.HashMap
import Cloudbreak.Model.Account

/-! # The lattice hash of a filtered snapshot

A snapshot is a list of account storage files, each stamped with its slot and write version. Two functions
hash the accounts of the selected programs: one finds the winning stamp of every account first and hashes
in a second pass, the other takes the files newest first and hashes the first version it meets. The
expansion of the account bytes to lattice elements is a parameter, and so is what the storage crate does
with a file when its handle is dropped.
-/

namespace Cloudbreak.Model.Snapshot

open Cloudbreak.ToMathlib

/-- The programs to index: the listed ones, or all but the listed ones. -/
structure AccountSelectorConfig where
  includePrograms : List Pubkey
  excludePrograms : List Pubkey
deriving DecidableEq, Repr

def AccountSelectorConfig.isProgramSelected (programs : AccountSelectorConfig) (program : Pubkey) : Bool :=
  if programs.includePrograms = [] then !(programs.excludePrograms.any fun other => other = program)
  else programs.includePrograms.any fun other => other = program

/-- One account version in a storage file. -/
structure StoredAccount where
  pubkey : Pubkey
  owner : Pubkey
  lamports : ℕ
  data : List UInt8
  executable : Bool
deriving DecidableEq, Repr

structure AccountFileData where
  slot : ℕ
  writeVersion : ℕ
  accounts : List StoredAccount
deriving DecidableEq, Repr

/-- Stamps are compared by slot first, as the pairs of the source are. -/
abbrev Stamp := ℕ ×ₗ ℕ

def AccountFileData.stamp (file : AccountFileData) : Stamp := toLex (file.slot, file.writeVersion)

/-- A hash is a vector of 1024 wrapping 16-bit numbers, and mixing adds it. -/
abbrev LtHash := Fin 1024 → ZMod (2 ^ 16)

/-- The little-endian bytes of a 64-bit number. -/
def toLeBytes (value : ℕ) : List UInt8 := (List.range 8).map fun i => UInt8.ofNat (value / 256 ^ i)

def Pubkey.toBytes (pubkey : Pubkey) : List UInt8 :=
  (List.range 32).map fun i => UInt8.ofNat (pubkey.val / 256 ^ (31 - i))

/-- Everything that names an account version goes into its hash, except for a closed account. -/
def ltHashAccount (expand : List UInt8 → LtHash) (account : StoredAccount) : LtHash :=
  if account.lamports = 0 then 0
  else expand (toLeBytes account.lamports ++ account.data ++ [if account.executable then 1 else 0] ++
    Pubkey.toBytes account.owner ++ Pubkey.toBytes account.pubkey)

/-! ## Two passes -/

/-- One account of the first pass. With a list of included programs, only their accounts are tracked. -/
def trackVersion (programs : AccountSelectorConfig) (stamp : Stamp) (versionMap : HashMap Pubkey Stamp)
    (account : StoredAccount) : HashMap Pubkey Stamp :=
  let firstPassFilter := decide (programs.includePrograms ≠ [])
  if firstPassFilter && !programs.isProgramSelected account.owner then versionMap
  else
    let entry := (versionMap.lookup account.pubkey).getD (toLex (0, 0))
    versionMap.insert account.pubkey (if stamp > entry then stamp else entry)

/-- One pass over the storage files. Each file is opened, scanned and dropped, which removes it from the disk
when `dropRemoves`. A file that is not on the disk cannot be opened. -/
def scanFiles {σ : Type} (dropRemoves : Bool) (onVersion : Stamp → σ → StoredAccount → σ) :
    List AccountFileData → Finset Stamp × σ → Except String (Finset Stamp × σ)
  | [], reached => .ok reached
  | file :: rest, (disk, state) =>
    if file.stamp ∈ disk then
      scanFiles dropRemoves onVersion rest
        (if dropRemoves then disk.erase file.stamp else disk, file.accounts.foldl (onVersion file.stamp) state)
    else .error "Failed to open account file"

/-- One account of the second pass, given to `onAccount` when it is the winning version, selected and live. -/
def visitAccount {σ : Type} (expand : List UInt8 → LtHash) (programs : AccountSelectorConfig)
    (versionMap : HashMap Pubkey Stamp) (onAccount : σ → Pubkey → LtHash → σ) (stamp : Stamp) (state : σ)
    (account : StoredAccount) : σ :=
  if (versionMap.lookup account.pubkey).any fun winning => stamp ≠ winning then state
  else if !programs.isProgramSelected account.owner then state
  else if account.lamports = 0 then state
  else onAccount state account.pubkey (ltHashAccount expand account)

/-- The files of the snapshot are all on the disk before the first pass. -/
def forEachDeduplicatedSnapshotAccount {σ : Type} (expand : List UInt8 → LtHash) (dropRemoves : Bool)
    (snapshotFiles : List AccountFileData) (programs : AccountSelectorConfig)
    (onAccount : σ → Pubkey → LtHash → σ) (state : σ) : Except String σ := do
  let unpacked := (snapshotFiles.map AccountFileData.stamp).toFinset
  let (disk, versionMap) ← scanFiles dropRemoves (trackVersion programs) snapshotFiles (unpacked, ∅)
  let (_, state) ← scanFiles dropRemoves (visitAccount expand programs versionMap onAccount) snapshotFiles
    (disk, state)
  return state

def computeSnapshotLtHash (expand : List UInt8 → LtHash) (dropRemoves : Bool)
    (snapshotFiles : List AccountFileData) (programs : AccountSelectorConfig) : Except String (LtHash × ℕ) :=
  forEachDeduplicatedSnapshotAccount expand dropRemoves snapshotFiles programs
    (fun state _ hash => (state.1 + hash, state.2 + 1)) (0, 0)

/-! ## A single pass, newest first -/

structure SinglePass where
  seen : Finset Pubkey
  aggregate : LtHash
  count : ℕ
  liveTotal : ℕ

/-- One account of the single pass: the first occurrence of a pubkey wins. -/
def SinglePass.visit (expand : List UInt8 → LtHash) (programs : AccountSelectorConfig) (pass : SinglePass)
    (account : StoredAccount) : SinglePass :=
  let excludeMode := decide (programs.includePrograms = [])
  if account.pubkey ∈ pass.seen then pass
  else
    let pass := { pass with seen := insert account.pubkey pass.seen }
    if account.lamports = 0 then pass
    else
      let pass := { pass with liveTotal := pass.liveTotal + 1 }
      if programs.isProgramSelected account.owner = excludeMode then pass
      else { pass with
        aggregate := pass.aggregate + ltHashAccount expand account
        count := pass.count + 1 }

/-- The files in descending order of their stamps. -/
def newestFirst (snapshotFiles : List AccountFileData) : List AccountFileData :=
  snapshotFiles.insertionSort fun a b => b.stamp ≤ a.stamp

/-- In exclude mode the hash covers the excluded accounts and the count the kept ones. An empty selector
is an error. Each file is opened once, and is on the disk then. -/
def computeSnapshotLtHashFilteredSinglePass (expand : List UInt8 → LtHash)
    (snapshotFiles : List AccountFileData) (programs : AccountSelectorConfig) :
    Except String (LtHash × ℕ) :=
  let excludeMode := decide (programs.includePrograms = [])
  if excludeMode && decide (programs.excludePrograms = []) then
    .error "compute_snapshot_lt_hash_filtered_single_pass requires a non-empty selector"
  else
    let pass := (newestFirst snapshotFiles).foldl
      (fun pass file => file.accounts.foldl (SinglePass.visit expand programs) pass) ⟨∅, 0, 0, 0⟩
    .ok (pass.aggregate, if excludeMode then pass.liveTotal - pass.count else pass.count)

end Cloudbreak.Model.Snapshot
