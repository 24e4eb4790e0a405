import Cloudbreak.Model.LargestAccounts.Tracker
import Cloudbreak.ToMathlib.Run

/-! # The largest_accounts table and its writers

A commit applies its block in one hold of the tracker's mutex and runs the statements of its outcome after it.
The persists under way are kept in the order in which their outcomes were emitted; which one runs its next
statement, and whether the statement fails, is open. A failed statement changes nothing.
-/

namespace Cloudbreak.Model.LargestAccounts

open Cloudbreak.ToMathlib

/-! ## The table -/

/-- One row for each mint and slot. -/
abbrev LargestAccountsTable := List MintRecord

namespace LargestAccountsTable

def upsert (table : LargestAccountsTable) (record : MintRecord) : LargestAccountsTable :=
  table.filter (fun row => ¬(row.mint = record.mint ∧ row.slot = record.slot)) ++ [record]

/-- All records in one transaction. -/
def persistRecords (table : LargestAccountsTable) (records : List MintRecord) : LargestAccountsTable :=
  records.foldl upsert table

def deleteMintRows (table : LargestAccountsTable) (mint : Pubkey) : LargestAccountsTable :=
  table.filter fun row => row.mint ≠ mint

/-- The newest record of a mint at or below a slot. -/
def fetchRecord (table : LargestAccountsTable) (mint : Pubkey) (maxSlot : ℕ) : Option (List (Pubkey × ℕ)) :=
  ((table.filter fun row => row.mint = mint ∧ row.slot ≤ maxSlot).argmax MintRecord.slot).map MintRecord.rows

/-- Deletes the generations below the newest one at or below a finalized slot. -/
def prune (table : LargestAccountsTable) (slot : ℕ) : LargestAccountsTable :=
  table.filter fun row => ¬∃ keep ∈ table, keep.mint = row.mint ∧ keep.slot ≤ slot ∧ row.slot < keep.slot

end LargestAccountsTable

/-! ## Statements -/

/-- What a persist has left to do. The records of the bootstrap have no rows to delete when they fail. -/
inductive Statement where
  | deleteMintRows (mint : Pubkey)
  | persistRecords (records : List MintRecord) (bootstrap : Bool)
  | markMintStale (mint : Pubkey)
deriving DecidableEq, Repr

/-- Stale and cleared mints are deleted, then the records are written. -/
def persistLargestOutcome (outcome : BlockOutcome) : List Statement :=
  (outcome.newlyStale ++ outcome.cleared).map .deleteMintRows ++
    if outcome.records = [] then [] else [.persistRecords outcome.records false]

/-- The bootstrap writes its records and deletes nothing. -/
def persistBootstrapOutcome (outcome : BlockOutcome) : List Statement :=
  if outcome.records = [] then [] else [.persistRecords outcome.records true]

/-- What follows a failed statement. -/
def Statement.onFailure : Statement → List Statement
  | .persistRecords records false =>
    records.flatMap fun record => [.markMintStale record.mint, .deleteMintRows record.mint]
  | .persistRecords records true => records.map fun record => .markMintStale record.mint
  | _ => []

/-! ## The system -/

structure LargestSystem where
  tracker : TrackerState
  table : LargestAccountsTable
  /-- The persists under way, in the order of their outcomes. -/
  persists : List (List Statement)

inductive LargestEvent where
  | mergeSeed (seed : LargestAccountsSeed)
  | finishBootstrap (balances : List NonCirculatingBalance)
  | commitBlock (slot : ℕ) (pending : List (Pubkey × PendingLargestAccount)) (order : List Pubkey)
  | statement (position : ℕ) (succeeds : Bool)
  | prune (slot : ℕ)

namespace LargestSystem

/-- The table is cleared when the tracker is built. -/
def new (shared : Shared) : LargestSystem := ⟨.new shared, [], []⟩

/-- Runs the next statement of a persist. Marking a mint is not a statement of the database and cannot fail. -/
def runStatement (system : LargestSystem) (succeeds : Bool) : Statement → LargestSystem × List Statement
  | .markMintStale mint => ({ system with tracker := system.tracker.markMintStale mint }, [])
  | .deleteMintRows mint =>
    if succeeds then ({ system with table := system.table.deleteMintRows mint }, [])
    else (system, (Statement.deleteMintRows mint).onFailure)
  | .persistRecords records bootstrap =>
    if succeeds then ({ system with table := system.table.persistRecords records }, [])
    else (system, (Statement.persistRecords records bootstrap).onFailure)

def step (shared : Shared) (system : LargestSystem) : LargestEvent → Option LargestSystem
  | .mergeSeed seed => some { system with tracker := system.tracker.mergeSeed shared seed }
  | .finishBootstrap balances =>
    let (tracker, outcome) := system.tracker.finishBootstrap shared balances
    some { system with tracker, persists := system.persists ++ [persistBootstrapOutcome outcome] }
  | .commitBlock slot pending order =>
    (system.tracker.applyBlock shared slot pending order).map fun (tracker, outcome) =>
      { system with tracker, persists := system.persists ++ [persistLargestOutcome outcome] }
  | .statement position succeeds =>
    match system.persists[position]? with
    | some (next :: rest) =>
      let (ran, followUp) := system.runStatement succeeds next
      some { ran with persists := system.persists.set position (followUp ++ rest) }
    | _ => none
  | .prune slot => some { system with table := system.table.prune slot }

end LargestSystem

end Cloudbreak.Model.LargestAccounts
