import Cloudbreak.Model.Filters.SqlFilters

/-! # Index statements and the queries they are for

The index of an identity on one account table, as its statement creates it, and the condition under which the
`getProgramAccounts` query reads a row of that table. The expression columns of an index are those of the
predicates; both texts spell the same function call. There is no index where an addition leaves the `u64` range.
-/

namespace Cloudbreak.Model.Filters

open Cloudbreak.ToMathlib

/-- A partial index on the rows of one program, of one length when given; its last column is the slot. -/
structure PartialIndex where
  name : String
  table : Table
  columns : List Column
  owner : Pubkey
  length : Option U64
deriving DecidableEq, Repr

namespace PartialIndex

/-- The rows that the index holds. -/
def holds (index : PartialIndex) (owner : Pubkey) (data : List UInt8) : Bool :=
  decide (owner = index.owner) && index.length.all fun size => decide (data.length = size.val)

end PartialIndex

namespace IndexIdentity

def createIndex (blake3 : List UInt8 → Digest) (identity : IndexIdentity) (table : Table) : Option PartialIndex := do
  let columns ← identity.filter.offsetsLengths.mapM fun pair =>
    (checkedAdd pair.1 1).map fun start => Column.substring start pair.2
  return ⟨identity.pgIndexName blake3 table.name, table, columns, identity.program, identity.filter.datasize⟩

end IndexIdentity

/-- The left sides of the equalities that a true predicate makes true. -/
def SqlClause.equated : SqlClause → List (Table × Column)
  | .bytes table column true _ => [(table, column)]
  | .bytes _ _ false _ | .length .. | .or .. => []
  | .and left right => left.equated ++ right.equated
  | .paren clause => clause.equated

/-- The `WHERE` of the query on one table: the owner, the slot and the predicates of the filters. -/
def gpaWhere (program : Pubkey) (latestSlot : U64) (sql : SqlFilters) (table : Table) (owner : Pubkey) (slot : U64)
    (data : List UInt8) : Option Bool :=
  (evalAll table sql.params data (sql.clauses table)).map fun filters =>
    decide (owner = program) && decide (slot ≤ latestSlot) && filters

end Cloudbreak.Model.Filters
