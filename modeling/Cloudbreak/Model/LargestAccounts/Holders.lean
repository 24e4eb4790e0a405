import Cloudbreak.Model.LargestAccounts.Tracker
import Cloudbreak.ToMathlib.TopAmounts

/-! # What every account holds

The newest write of every account decides what it holds of every mint. A top list is right when its positive amounts
are the largest positive amounts over all accounts.
-/

namespace Cloudbreak.Model.LargestAccounts

open Cloudbreak.ToMathlib

/-- What an account holds of a mint or of a sentinel after this write. -/
def PendingLargestAccount.balance (update : PendingLargestAccount) (mint : Pubkey) : Option ℕ :=
  if update.lamports = 0 then none
  else if mint = solSentinelMint then some update.lamports
  else if mint = circulatingSentinelMint then if update.nonCirculating then none else some update.lamports
  else if mint = nonCirculatingSentinelMint then if update.nonCirculating then some update.lamports else none
  else (update.token.filter fun token => token.1 = mint).map Prod.snd

/-- The newest write of every account. -/
abbrev Accounts := HashMap Pubkey (Stamp × PendingLargestAccount)

namespace Accounts

/-- A write counts unless a write with its stamp or a newer one is there. -/
def write (slot : ℕ) (accounts : Accounts) (item : Pubkey × PendingLargestAccount) : Accounts :=
  let stamp : Stamp := toLex (slot, item.2.writeVersion)
  if (accounts.lookup item.1).all fun newest => decide (newest.1 < stamp) then accounts.insert item.1 (stamp, item.2)
  else accounts

def holder (accounts : Accounts) (mint pubkey : Pubkey) : Option Entry :=
  (accounts.lookup pubkey).bind fun newest =>
    (newest.2.balance mint).map fun amount => ⟨amount, (ofLex newest.1).1, (ofLex newest.1).2⟩

/-- The balances of all holders of a mint. -/
def balances (accounts : Accounts) (mint : Pubkey) : List ℕ :=
  accounts.toList.filterMap fun item => item.2.2.balance mint

end Accounts

end Cloudbreak.Model.LargestAccounts
