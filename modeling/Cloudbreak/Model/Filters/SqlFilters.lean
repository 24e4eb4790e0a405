import Cloudbreak.ToMathlib.Bytea
import Cloudbreak.Model.Filters.IndexIdentity
import Cloudbreak.Model.Processed.ReadAccounts

/-! # Filters as SQL

The filters of a `getProgramAccounts` request become predicates on both account tables. On a token program the
mint, the owner and the delegate tag become the expressions that the token indexes are built on. A predicate is
the tree that its text spells, with its meaning on a row; the meaning is missing where PostgreSQL rejects the
statement or a placeholder has no value. Building has no result where an addition leaves the `usize` range.
-/

namespace Cloudbreak.Model.Filters

open Cloudbreak.ToMathlib
open Processed (isTokenProgram)

/-! ## The predicates -/

inductive Table
  | accounts
  | snapshotAccounts
deriving DecidableEq, Repr

def Table.name : Table → String
  | .accounts => "accounts"
  | .snapshotAccounts => "snapshot_accounts"

/-- An expression over the data of a row. The two columns are generated from it. -/
inductive Column
  | substring (start length : ℕ)
  | tokenMint
  | tokenOwner
deriving DecidableEq, Repr

/-- An integer literal from `2 ^ 31` on is a `bigint`, for which there is no `substring`. -/
def Column.value (data : List UInt8) : Column → Option (List UInt8)
  | .substring start length =>
    if start < 2 ^ 31 ∧ length < 2 ^ 31 then some (Bytea.substring data start length) else none
  | .tokenMint => some (Bytea.substring data 1 32)
  | .tokenOwner => some (Bytea.substring data 33 32)

inductive BytesValue
  | param (number : ℕ)
  | literal (bytes : List UInt8)
deriving DecidableEq, Repr

def BytesValue.value (params : List (List UInt8)) : BytesValue → Option (List UInt8)
  | .param number => if number = 0 then none else params[number - 1]?
  | .literal bytes => some bytes

inductive LengthRelation
  | eq
  | ne
  | gt
deriving DecidableEq, Repr

def LengthRelation.holds (length size : ℕ) : LengthRelation → Bool
  | .eq => length = size
  | .ne => length ≠ size
  | .gt => length > size

inductive SqlClause
  | length (table : Table) (relation : LengthRelation) (size : ℕ)
  | bytes (table : Table) (column : Column) (equal : Bool) (value : BytesValue)
  | and (left right : SqlClause)
  | or (left right : SqlClause)
  | paren (clause : SqlClause)
deriving DecidableEq, Repr

namespace SqlClause

/-- The value on a row of a table. Both sides of a connective must be accepted. -/
def eval (table : Table) (params : List (List UInt8)) (data : List UInt8) : SqlClause → Option Bool
  | .length other relation size => if other = table then some (relation.holds data.length size) else none
  | .bytes other column equal value =>
    if other = table then
      (column.value data).bind fun left => (value.value params).map fun right => decide (left = right) == equal
    else none
  | .and left right =>
    (left.eval table params data).bind fun first => (right.eval table params data).map fun second => first && second
  | .or left right =>
    (left.eval table params data).bind fun first => (right.eval table params data).map fun second => first || second
  | .paren clause => clause.eval table params data

/-- The placeholders of a predicate. -/
def placeholders : SqlClause → List ℕ
  | .length .. => []
  | .bytes _ _ _ (.param number) => [number]
  | .bytes _ _ _ (.literal _) => []
  | .and left right => left.placeholders ++ right.placeholders
  | .or left right => left.placeholders ++ right.placeholders
  | .paren clause => clause.placeholders

end SqlClause

/-- The conjunction of predicates. -/
def evalAll (table : Table) (params : List (List UInt8)) (data : List UInt8) : List SqlClause → Option Bool
  | [] => some true
  | clause :: rest =>
    (clause.eval table params data).bind fun first => (evalAll table params data rest).map fun others => first && others

/-- The predicates for both tables and the values they share. -/
structure SqlFilters where
  accounts : List SqlClause
  snapshot : List SqlClause
  params : List (List UInt8)
  label : String

def SqlFilters.clauses (filters : SqlFilters) : Table → List SqlClause
  | .accounts => filters.accounts
  | .snapshotAccounts => filters.snapshot

/-! ## The translation -/

/-- The client library: it also verifies a byte filter and makes one of an offset and its bytes. -/
structure MemcmpClient (Memcmp : Type) extends MemcmpLibrary Memcmp where
  verify : Memcmp → Except String Unit
  newRawBytes : U64 → Slice → Memcmp

inductive BuildError
  | invalidParams
  | invalidParamsWithMessage (message : String)
deriving DecidableEq, Repr

inductive TokenKey
  | mint
  | delegate
  | owner
deriving DecidableEq, Repr

def tokenAccountMintOffset : U64 := 0

def tokenAccountOwnerOffset : U64 := 32

def tokenAccountDelegateTagOffset : U64 := 72

def tokenAccountDelegateOffset : U64 := 76

/-- The tag of a delegate that is set. -/
def delegateTagBytes : Slice := ⟨[1, 0, 0, 0], by decide⟩

section Translation

variable {Memcmp : Type} (client : MemcmpClient Memcmp)

def verifyFilter : RpcFilterType Memcmp → Except String Unit
  | .memcmp memcmp => client.verify memcmp
  | .dataSize _ | .tokenAccountState | .valueCmp _ => .ok ()

/-- The first filter that does not verify is reported. -/
def verifyAll : List (RpcFilterType Memcmp) → Except BuildError Unit
  | [] => .ok ()
  | filter :: rest =>
    match verifyFilter client filter with
    | .error text => .error (.invalidParamsWithMessage s!"Invalid param: {text}")
    | .ok () => verifyAll rest

/-- A byte filter at an offset, of a length when given. -/
def hasMemcmp (filters : List (RpcFilterType Memcmp)) (offset : U64) (length : Option ℕ) : Bool :=
  filters.any fun filter =>
    match filter with
    | .memcmp memcmp =>
      decide (client.offset memcmp = offset) &&
        (client.bytes memcmp).any fun bytes => length.all fun length => decide (bytes.val.length = length)
    | _ => false

/-- The indexed keys among the filters; a byte filter without bytes is an error. -/
def tokenKeys : List (RpcFilterType Memcmp) → Except BuildError (List TokenKey)
  | [] => .ok []
  | .memcmp memcmp :: rest =>
    match client.bytes memcmp with
    | none => .error .invalidParams
    | some bytes =>
      (tokenKeys rest).map fun keys =>
        if bytes.val.length ≠ 32 then keys
        else if client.offset memcmp = tokenAccountMintOffset then .mint :: keys
        else if client.offset memcmp = tokenAccountDelegateOffset then .delegate :: keys
        else if client.offset memcmp = tokenAccountOwnerOffset then .owner :: keys
        else keys
  | _ :: rest => tokenKeys rest

def isValidTokenQuery (filters : List (RpcFilterType Memcmp)) : Except BuildError TokenKey :=
  match tokenKeys client filters with
  | .error error => .error error
  | .ok keys =>
    match [TokenKey.mint, .delegate, .owner].find? fun key => keys.any fun other => decide (other = key) with
    | some key => .ok key
    | none => .error .invalidParams

/-- The delegate tag as its index has it, the first byte by itself. -/
def delegateTagClause (table : Table) : SqlClause :=
  .and (.bytes table (.substring 73 1) true (.literal [1])) (.bytes table (.substring 74 3) true (.literal [0, 0, 0]))

def tokenAccountStateClause (table : Table) : SqlClause :=
  .paren (.and (.bytes table (.substring 109 1) false (.literal [0]))
    (.paren (.or (.length table .eq 165)
      (.paren (.and (.and (.length table .gt 165) (.length table .ne 355))
        (.bytes table (.substring 166 1) true (.literal [2])))))))

/-- One filter as a predicate, and the value it binds. The outer `none` is an overflow of the offset. -/
def filterSql (filter : RpcFilterType Memcmp) (table : Table) (tokenProgram : Bool) (param : ℕ) :
    Option (Option (SqlClause × Option (List UInt8))) :=
  match filter with
  | .dataSize size => some (some (.length table .eq size, none))
  | .memcmp memcmp =>
    match client.bytes memcmp with
    | none => some none
    | some bytes =>
      let offset := client.offset memcmp
      if tokenProgram && (decide (offset = tokenAccountOwnerOffset) && decide (bytes.val.length = 32)) then
        some (some (.bytes table .tokenOwner true (.param param), some bytes.val))
      else if tokenProgram && (decide (offset = tokenAccountMintOffset) && decide (bytes.val.length = 32)) then
        some (some (.bytes table .tokenMint true (.param param), some bytes.val))
      else if tokenProgram &&
          (decide (offset = tokenAccountDelegateTagOffset) && decide (bytes = delegateTagBytes)) then
        some (some (delegateTagClause table, none))
      else
        (checkedAdd offset 1).map fun start =>
          some (.bytes table (.substring start bytes.val.length) true (.param param), some bytes.val)
  | .tokenAccountState => some (some (tokenAccountStateClause table, none))
  | .valueCmp _ => some none

/-- One filter of the list: its predicate for both tables, under the number of the next value. -/
def addFilter (tokenProgram : Bool) (sql : SqlFilters) (filter : RpcFilterType Memcmp) : Option SqlFilters := do
  let param := sql.params.length + 1
  match ← filterSql client filter .accounts tokenProgram param with
  | none => return sql
  | some (clause, value) =>
    let snapshot := (← filterSql client filter .snapshotAccounts tokenProgram param).map Prod.fst
    return { sql with
      accounts := sql.accounts ++ [clause]
      snapshot := sql.snapshot ++ snapshot.toList
      params := sql.params ++ value.toList }

def TokenKey.suffix : TokenKey → String
  | .mint => "_mint"
  | .delegate => "_delegate"
  | .owner => "_token"

def addsDelegateTag (program : Pubkey) (filters : List (RpcFilterType Memcmp)) : Bool :=
  isTokenProgram program && (hasMemcmp client filters tokenAccountDelegateOffset (some 32) &&
    !hasMemcmp client filters tokenAccountDelegateTagOffset none)

/-- The filters to translate: a delegate filter without a tag gets one. -/
def withDelegateTag (program : Pubkey) (filters : List (RpcFilterType Memcmp)) : List (RpcFilterType Memcmp) :=
  filters ++ if addsDelegateTag client program filters then
    [.memcmp (client.newRawBytes tokenAccountDelegateTagOffset delegateTagBytes)] else []

def labelFor (label : String) (key : TokenKey) : String := if label = "gpa" then label ++ key.suffix else label

namespace SqlFilters

def build (program : Pubkey) (filters : List (RpcFilterType Memcmp)) (label : String) :
    Option (Except BuildError SqlFilters) :=
  match verifyAll client filters with
  | .error error => some (.error error)
  | .ok () =>
    let key : Except BuildError String :=
      if isTokenProgram program then (isValidTokenQuery client filters).map (labelFor label) else .ok label
    match key with
    | .error error => some (.error error)
    | .ok label =>
      ((withDelegateTag client program filters).foldlM (addFilter client (isTokenProgram program))
        ⟨[], [], [], label⟩).map .ok

end SqlFilters

end Translation

end Cloudbreak.Model.Filters
