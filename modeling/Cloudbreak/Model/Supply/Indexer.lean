import Cloudbreak.Model.Supply.Tracker

/-! # The supply path of the indexer

The stake map, the supply tracker and the stored rows of an indexer that serves the supply: the owner map
is off and every program is indexed. A block is saved in the order of the source: the stake map, the probe
and the miss read, the row writes, then the commit. The rows are those a miss read can return; a close
stores a row only for an account that already has one, and only once the snapshot is finished.
-/

namespace Cloudbreak.Model.Supply

open Cloudbreak.ToMathlib
open NonCirculating (Shared)

/-- A stored row of `accounts` or `snapshot_accounts`, as far as a miss read goes. -/
structure StoredRow where
  pubkey : Pubkey
  slot : ℕ
  lamports : ℕ
deriving DecidableEq, Repr

/-- `ORDER BY slot DESC, lamports DESC LIMIT 1` over the rows of one account. -/
def latestRow (rows : List StoredRow) (pubkey : Pubkey) : Option StoredRow :=
  (rows.filter fun row => row.pubkey = pubkey).argmax fun row => toLex (row.slot, row.lamports)

structure Indexer where
  nonCirculating : NonCirculating.State
  supply : SupplyState
  accounts : List StoredRow
  snapshotAccounts : List StoredRow
  /-- The snapshot is finished, so closes are stored. -/
  snapshotFinished : Bool

namespace Indexer

/-- An indexer that knows the snapshot's slot and capitalization and has read no account yet. -/
def start (shared : Shared) (cap failPinCap startupSlot capitalization : ℕ) : Indexer where
  nonCirculating := .new shared
  supply := (SupplyState.new cap failPinCap).setStartupTotal startupSlot capitalization
  accounts := []
  snapshotAccounts := []
  snapshotFinished := false

def rows (indexer : Indexer) : List StoredRow := indexer.accounts ++ indexer.snapshotAccounts

/-- The latest row of an account, below `belowSlot` when it is given. -/
def fetchPrevBalances (indexer : Indexer) (belowSlot : Option ℕ) (pubkey : Pubkey) : Option PrevRow :=
  (latestRow (indexer.rows.filter fun row => belowSlot.all fun slot => row.slot < slot) pubkey).map
    fun row => ⟨row.lamports, row.slot⟩

/-- The balance the next write of an account at `slot` is counted against: the stake map's when the map
owns the account, else the cached one, else that of the latest row below the slot. -/
def prevBalance (indexer : Indexer) (slot : ℕ) (pubkey : Pubkey) : ℕ :=
  let tracked := match indexer.supply.cache.map.lookup pubkey with
    | some entry => entry.lamports
    | none => ((indexer.fetchPrevBalances (some slot) pubkey).map PrevRow.lamports).getD 0
  match indexer.nonCirculating.accounts.lookup pubkey with
  | some entry => if entry.stakeOwned then entry.lamports else tracked
  | none => tracked

/-- The snapshot balance of an account at or below the startup slot; a missing account has none. -/
def fetchStartupBalance (indexer : Indexer) (startupSlot : ℕ) (pubkey : Pubkey) : ℕ :=
  ((latestRow (indexer.snapshotAccounts.filter fun row => row.slot ≤ startupSlot) pubkey).map
    StoredRow.lamports).getD 0

/-- The startup balance of every account the window touched. -/
def fetchStartupBalances (indexer : Indexer) : HashMap Pubkey ℕ :=
  indexer.supply.startupTouched.keys.foldl
    (fun balances pubkey =>
      balances.insert pubkey (indexer.fetchStartupBalance indexer.supply.startupSlot pubkey)) ∅

/-- The rows of a block: one for each live account, and one for each stored close. -/
def blockRows (indexer : Indexer) (slot : ℕ) (accounts : List AccountInfo) : List StoredRow :=
  (accounts.filter fun account => account.lamports ≠ 0).map
      (fun account => ⟨account.pubkey, slot, account.lamports⟩) ++
    (accounts.filter fun account => decide (account.lamports = 0) && indexer.snapshotFinished &&
        decide (account.pubkey ∈ indexer.rows.map StoredRow.pubkey)).map
      (fun account => ⟨account.pubkey, slot, 0⟩)

/-- Saves one block. When its writes fail, none of its rows are stored. -/
def saveBlock (shared : Shared) (indexer : Indexer) (slot : ℕ) (isRepaired : Bool)
    (accounts : List AccountInfo) (blockWritesOk : Bool) : Indexer :=
  let (nonCirculating, stake) := indexer.nonCirculating.applyBlock shared slot isRepaired accounts
  let belowSlot := if isRepaired then none else some slot
  let (supply, outcome) := indexer.supply.applyBlock slot isRepaired
    (SupplyState.buildBlockPending accounts) stake fun _ => some (indexer.fetchPrevBalances belowSlot)
  { indexer with
    nonCirculating
    supply := (supply.finishBlock slot outcome blockWritesOk).1
    accounts := if blockWritesOk then indexer.accounts ++ indexer.blockRows slot accounts else indexer.accounts }

/-- Everything that reaches the supply path. -/
inductive Event where
  /-- One account of the snapshot, stored and seeded. -/
  | seed (slot : ℕ) (account : AccountInfo)
  | block (slot : ℕ) (isRepaired : Bool) (accounts : List AccountInfo) (blockWritesOk : Bool)
  | finishNonCirculating
  | finishSupply
  | finishSnapshot
  | markGap
  | finishGap
  | sweep (slot : ℕ)
deriving DecidableEq

/-- One event. `none` where a bootstrap cannot finish or a sweep panics. -/
def step (shared : Shared) (indexer : Indexer) : Event → Option Indexer
  | .seed slot account => some { indexer with
      nonCirculating := indexer.nonCirculating.seedAccount shared account slot
      snapshotAccounts := indexer.snapshotAccounts ++ [⟨account.pubkey, slot, account.lamports⟩] }
  | .block slot isRepaired accounts blockWritesOk =>
    some (indexer.saveBlock shared slot isRepaired accounts blockWritesOk)
  | .finishNonCirculating => do
    let nonCirculating ← indexer.nonCirculating.finishBootstrap
    return { indexer with nonCirculating }
  | .finishSupply => do
    let (supply, _) ← indexer.supply.finishBootstrap indexer.fetchStartupBalances
    return { indexer with supply }
  | .finishSnapshot => some { indexer with snapshotFinished := true }
  | .markGap => some { indexer with supply := indexer.supply.markGap.1 }
  | .finishGap => some { indexer with supply := indexer.supply.finishGap }
  | .sweep slot => do
    let supply ← indexer.supply.sweepIfDue slot
    return { indexer with supply }

end Indexer

end Cloudbreak.Model.Supply
