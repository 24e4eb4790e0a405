import Cloudbreak.Model.Cleanup.Pending

/-! # The keys one finalized slot contributes

A block's record keeps raw key bytes; a key that is not 32 bytes long is skipped.
-/

namespace Cloudbreak.Model.Cleanup

/-- What a block wrote, kept until its slot is finalized. -/
structure AccountsReceivedPerBlock where
  blockTime : Option ℤ
  accounts : List (List UInt8)
  accountsOwners : List (List UInt8)
  closedAccounts : List (List UInt8)
  closedCleanupPubkeys : List (List UInt8)
  closedCleanupOwners : List (List UInt8)
deriving DecidableEq, Repr

namespace AccountsReceivedPerBlock

def empty : AccountsReceivedPerBlock := ⟨none, [], [], [], [], []⟩

end AccountsReceivedPerBlock

/-- The number that 32 bytes spell, the highest byte first. -/
def toKeyBytes (bytes : List UInt8) : Option Pubkey :=
  if bytes.length = 32 then
    some (bytes.foldl (fun key byte => key * 256 + Fin.ofNat (2 ^ 256) byte.toNat) 0)
  else none

structure DerivedKeys where
  items : List (CleanupKey × ℕ)
  uncoveredCloses : ℕ
deriving DecidableEq, Repr

/-- Open keys take the slot as their cutoff, closed and owner-moved keys one past it. -/
def keysForSlot (accounts : AccountsReceivedPerBlock) (slot : ℕ) (ownerMapEnabled : Bool) : DerivedKeys :=
  let closedCutoff := slot + 1
  let openRouted := ownerMapEnabled && decide (accounts.accountsOwners.length = accounts.accounts.length)
  let opened := (accounts.accounts.zipIdx).filterMap fun (bytes, index) =>
    (toKeyBytes bytes).map fun pubkey =>
      let owner := if openRouted then (accounts.accountsOwners[index]?).bind toKeyBytes else none
      (CleanupKey.mk owner pubkey, slot)
  if ownerMapEnabled then
    let paired := decide (accounts.closedCleanupOwners.length = accounts.closedCleanupPubkeys.length)
    let closed := (accounts.closedCleanupPubkeys.zipIdx).filterMap fun (bytes, index) =>
      (toKeyBytes bytes).map fun pubkey =>
        (CleanupKey.mk ((accounts.closedCleanupOwners[index]?).bind toKeyBytes) pubkey, closedCutoff)
    let covered := if paired then accounts.closedCleanupPubkeys else []
    { items := opened ++ if paired then closed else []
      uncoveredCloses := (accounts.closedAccounts.filter fun bytes => !decide (bytes ∈ covered)).length }
  else
    let closed := accounts.closedAccounts.filterMap fun bytes =>
      (toKeyBytes bytes).map fun pubkey => (CleanupKey.mk none pubkey, closedCutoff)
    { items := opened ++ closed, uncoveredCloses := 0 }

end Cloudbreak.Model.Cleanup
