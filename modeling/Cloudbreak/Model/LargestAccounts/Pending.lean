import Cloudbreak.Model.LargestAccounts.Tracker
import Cloudbreak.Model.Processed.ReadAccounts

/-! # A block's pending accounts

The accounts of a block as the stream sends them become one update for each account: its lamports, its class and its
balance of a tracked mint.
-/

namespace Cloudbreak.Model.LargestAccounts

open Cloudbreak.ToMathlib
open Filters (pubkeyTryFrom tokenProgramId)
open Filters.IndexIdentity (programBytes)

/-- One account of a block. -/
structure SubscribeUpdateAccountInfo where
  pubkey : List UInt8
  lamports : ℕ
  owner : List UInt8
  data : List UInt8
  writeVersion : ℕ
deriving DecidableEq, Repr

/-- The mint and the amount of a token account, if the mint is tracked. -/
def SubscribeUpdateAccountInfo.token (trackedMints : List Pubkey) (account : SubscribeUpdateAccountInfo) :
    Option (Pubkey × ℕ) :=
  let isTokenOwner := account.owner = programBytes tokenProgramId ∨
    account.owner = programBytes Processed.token2022ProgramId
  if isTokenOwner ∧ account.data.length ≥ 72 then
    ((pubkeyTryFrom (account.data.take 32)).filter fun mint => trackedMints.contains mint).map fun mint =>
      (mint, LittleEndian.ofBytes ((account.data.drop 64).take 8))
  else none

/-- The pending accounts of a block so far. -/
abbrev Pending := HashMap Pubkey PendingLargestAccount

/-- The highest write version of an account stays. A malformed key is skipped. -/
def Pending.observe (trackedMints : List Pubkey) (isNonCirculating : Pubkey → Bool) (pending : Pending)
    (account : SubscribeUpdateAccountInfo) : Pending :=
  match pubkeyTryFrom account.pubkey with
  | none => pending
  | some pubkey =>
    let update : PendingLargestAccount :=
      ⟨account.writeVersion, account.lamports, isNonCirculating pubkey, account.token trackedMints⟩
    match pending.lookup pubkey with
    | none => pending.insert pubkey update
    | some held => if update.writeVersion > held.writeVersion then pending.insert pubkey update else pending

/-- A member whose lockup expired was not written: its class moves below any write of the block. -/
def Pending.expire (pending : Pending) (member : Pubkey × ℕ) : Pending :=
  if (pending.lookup member.1).isSome then pending else pending.insert member.1 ⟨0, member.2, false, none⟩

def buildBlockPending (shared : Shared) (isNonCirculating : Pubkey → Bool) (accounts : List SubscribeUpdateAccountInfo)
    (expired : List (Pubkey × ℕ)) : Pending :=
  expired.foldl Pending.expire (accounts.foldl (Pending.observe shared.trackedMints isNonCirculating) ∅)

end Cloudbreak.Model.LargestAccounts
