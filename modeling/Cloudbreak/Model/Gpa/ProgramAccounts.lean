import Cloudbreak.Model.Filters.SqlFilters
import Cloudbreak.Model.SaveBlock.Store

/-! # The query for the accounts of a program

Both tables are filtered by the owner, the slot and the predicates of the request. Of what is left the newest row of
each account is returned, if it has lamports. The database rejects the statement where a predicate has no meaning.
-/

namespace Cloudbreak.Model.Gpa

open Filters (SqlFilters Table evalAll)
open SaveBlock (AccountRow PgOwnerPartitionsConfig Store)

/-- The statement is accepted: every predicate has a value on every row. -/
def IsAccepted (sql : SqlFilters) : Prop :=
  ∀ table data, (evalAll table sql.params data (sql.clauses table)).isSome = true

/-- The `WHERE` clause of one table. -/
def keeps (sql : SqlFilters) (program : Pubkey) (latestSlot : ℕ) (table : Table) (row : AccountRow) : Bool :=
  decide (row.owner = program) && (decide (row.slot ≤ latestSlot) &&
    decide (evalAll table sql.params row.data (sql.clauses table) = some true))

/-- The rows of `program_accounts`, as they may be scanned. -/
def ProgramScan {cfg : PgOwnerPartitionsConfig} (sql : SqlFilters) (store : Store cfg) (program : Pubkey)
    (latestSlot : ℕ) (scanned : List AccountRow) : Prop :=
  scanned.Perm (store.accounts.rows.filter (keeps sql program latestSlot .accounts) ++
    store.snapshotAccounts.filter (keeps sql program latestSlot .snapshotAccounts))

end Cloudbreak.Model.Gpa
