import Cloudbreak.Model.Snapshot.LtHash

/-! # The accounts of a block under the owner map

The owner map knows under which owner an account was stored. A closed account, one that moved to a program
that is not included, and the old owner of one that moved between included programs get a mask: a row without
lamports that hides the older rows of that owner.
-/

namespace Cloudbreak.Model.SaveBlock

open Cloudbreak.ToMathlib
open Snapshot (AccountSelectorConfig)

/-- A row of `accounts` or `snapshot_accounts`. -/
structure AccountRow where
  pubkey : Pubkey
  owner : Pubkey
  lamports : ℕ
  slot : ℕ
  data : List UInt8
deriving DecidableEq, Repr

structure AccountOwnerItem where
  owner : Pubkey
  slot : ℕ
deriving DecidableEq, Repr

/-- The owner that a moved account had before. -/
structure ChangedOwner where
  pubkey : Pubkey
  owner : Pubkey
deriving DecidableEq, Repr

structure AccountOwnerMap where
  accounts : HashMap Pubkey AccountOwnerItem
  changedOwners : HashMap ℕ (List ChangedOwner)

/-- The row that hides an account's older rows of one owner. -/
def closedMask (slot : ℕ) (pubkey owner : Pubkey) : AccountRow := ⟨pubkey, owner, 0, slot, []⟩

namespace AccountOwnerMap

/-- Inserts an account, or records a move to another owner at a higher slot. -/
def upsertAccount (ownerMap : AccountOwnerMap) (pubkey owner : Pubkey) (slot : ℕ) : AccountOwnerMap :=
  match ownerMap.accounts.lookup pubkey with
  | some existing =>
    if existing.owner ≠ owner ∧ existing.slot < slot then
      { accounts := ownerMap.accounts.insert pubkey ⟨owner, slot⟩
        changedOwners := ownerMap.changedOwners.insert slot
          ((ownerMap.changedOwners.lookup slot).getD [] ++ [⟨pubkey, existing.owner⟩]) }
    else ownerMap
  | none => { ownerMap with accounts := ownerMap.accounts.insert pubkey ⟨owner, slot⟩ }

def checkUpdatedAccountOwner (ownerMap : AccountOwnerMap) (pubkey owner : Pubkey) (slot : ℕ) : Bool :=
  (ownerMap.accounts.lookup pubkey).any fun item => item.owner ≠ owner ∧ item.slot < slot

/-- Whether a tracked account moved to an owner that is not included. -/
def accountToBeDeleted (ownerMap : AccountOwnerMap) (pubkey owner : Pubkey) (slot : ℕ) (isNewOwnerIncluded : Bool) :
    Bool :=
  ownerMap.checkUpdatedAccountOwner pubkey owner slot && !isNewOwnerIncluded

/-- Takes one closed account out of the map, with a mask for the owner it was tracked under. -/
def takeClosed (slot : ℕ) (taken : HashMap Pubkey AccountOwnerItem × List AccountRow) (pubkey : Pubkey) :
    HashMap Pubkey AccountOwnerItem × List AccountRow :=
  match taken.1.lookup pubkey with
  | none => taken
  | some item => (taken.1.erase pubkey, taken.2 ++ [closedMask slot pubkey item.owner])

/-- The masks of a block: its closed accounts and the old owners of the slot. -/
def saveClosedAccounts (ownerMap : AccountOwnerMap) (closedAccounts : List Pubkey) (slot : ℕ) :
    AccountOwnerMap × List AccountRow :=
  let (accounts, masks) := closedAccounts.foldl (takeClosed slot) (ownerMap.accounts, [])
  let changed := (ownerMap.changedOwners.lookup slot).getD []
  (⟨accounts, ownerMap.changedOwners.erase slot⟩,
    masks ++ changed.map fun changed => closedMask slot changed.pubkey changed.owner)

end AccountOwnerMap

/-- What the loop over a block's accounts has collected. -/
structure Saving where
  ownerMap : AccountOwnerMap
  updated : List AccountRow
  closed : List Pubkey

/-- Whether the programs of the configuration include an owner. -/
def isOwnerIncluded (programs : AccountSelectorConfig) (owner : Pubkey) : Bool :=
  if programs.includePrograms ≠ [] then programs.includePrograms.contains owner
  else !programs.excludePrograms.contains owner

/-- One account of a block. -/
def saveAccount (programs : AccountSelectorConfig) (slot : ℕ) (saving : Saving) (account : AccountInfo) : Saving :=
  if account.lamports = 0 then { saving with closed := saving.closed ++ [account.pubkey] }
  else
    let isNewOwnerIncluded := isOwnerIncluded programs account.owner
    let closed :=
      if saving.ownerMap.accountToBeDeleted account.pubkey account.owner slot isNewOwnerIncluded then
        saving.closed ++ [account.pubkey]
      else saving.closed
    if !isNewOwnerIncluded then { saving with closed }
    else
      { ownerMap := saving.ownerMap.upsertAccount account.pubkey account.owner slot
        updated := saving.updated ++ [⟨account.pubkey, account.owner, account.lamports, slot, account.data⟩]
        closed }

end Cloudbreak.Model.SaveBlock
