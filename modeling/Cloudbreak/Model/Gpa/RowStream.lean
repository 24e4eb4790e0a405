import Cloudbreak.ToMathlib.HashMap
import Cloudbreak.Model.Account

/-! # From the rows of a query to batches of accounts

The rows of a `getProgramAccounts` query go over a channel in batches, and the encoder turns each batch into accounts.
It filters the rows, resolves the mints it has not seen, encodes each row with its mint and leaves out what does not
parse. The two sides run side by side, and the client may go away at any time.
-/

namespace Cloudbreak.Model.Gpa

open Cloudbreak.ToMathlib

/-! ## The query -/

/-- What the query tracker is told of one query. -/
structure BufferedQuery where
  queryTimeUs : ℕ
  failed : Bool
deriving DecidableEq, Repr

/-- The task that sends the rows. Without a batch size all rows are one batch. -/
structure GpaDbQuery (Row Failure : Type) where
  batch : List Row
  sent : List (Except Failure (List Row))
  buffered : List BufferedQuery
  running : Bool
  receiver : Bool

namespace GpaDbQuery

variable {Row Failure : Type}

def new : GpaDbQuery Row Failure := ⟨[], [], [], true, true⟩

/-- A send to a receiver that is gone reaches nobody. -/
def send (query : GpaDbQuery Row Failure) (item : Except Failure (List Row)) : GpaDbQuery Row Failure :=
  if query.receiver then { query with sent := query.sent ++ [item] } else query

def bufferQuery (query : GpaDbQuery Row Failure) (queryTimeUs : ℕ) (failed : Bool) : GpaDbQuery Row Failure :=
  { query with buffered := query.buffered ++ [⟨queryTimeUs, failed⟩] }

def stop (query : GpaDbQuery Row Failure) : GpaDbQuery Row Failure := { query with batch := [], running := false }

/-- A full batch that nobody receives ends the task, and nothing is buffered for it. -/
def row (batchSize : Option ℕ) (query : GpaDbQuery Row Failure) (row : Row) : GpaDbQuery Row Failure :=
  let batch := query.batch ++ [row]
  if batchSize.any fun size => decide (batch.length ≥ size) then
    if query.receiver then { query.send (.ok batch) with batch := [] } else query.stop
  else { query with batch }

/-- The database ran out of rows. -/
def finish (query : GpaDbQuery Row Failure) (queryTimeUs : ℕ) : GpaDbQuery Row Failure :=
  let last := if query.batch = [] then query else query.send (.ok query.batch)
  (last.bufferQuery queryTimeUs false).stop

/-- A failed query, and one over its time. What is left of the batch is lost. -/
def fail (internalError : Failure) (query : GpaDbQuery Row Failure) (queryTimeUs : ℕ) : GpaDbQuery Row Failure :=
  ((query.bufferQuery queryTimeUs true).send (.error internalError)).stop

end GpaDbQuery

/-! ## The encoder -/

/-- Why the response can change while its accounts do not. -/
inductive Volatility where
  | mutableMint
  | droppedAccount
deriving DecidableEq, Repr

/-- What a request encodes with. `mintAt` is the mint at the slot of the request, `mintOf` the mint of a fresh token
account, and `unparsed` says that a fresh account did not parse. The resolver is enabled for parsed token accounts. -/
structure GpaEncoding (Row Mint Account Failure : Type) where
  valueCmp : Row → Bool
  resolves : Bool
  mintOf : Row → Option Pubkey
  nativeMint : Pubkey
  nativeData : Option Mint
  mintAt : Pubkey → Option Mint
  immutable : Mint → Bool
  encode : Row → Option Mint → Except Failure Account
  unparsed : Account → Bool

/-- The mints found so far. A mint that does not exist at the slot has no entry. -/
structure MintResolver (Mint : Type) where
  mints : HashMap Pubkey Mint
  volatility : Option Volatility

namespace MintResolver

variable {Row Mint Account Failure : Type} (encoding : GpaEncoding Row Mint Account Failure)

/-- The first reason wins. -/
def markAsVolatile (resolver : MintResolver Mint) (reason : Volatility) : MintResolver Mint :=
  { resolver with volatility := some (resolver.volatility.getD reason) }

def addMint (mints : HashMap Pubkey Mint) (mint : Pubkey) : HashMap Pubkey Mint :=
  match encoding.mintAt mint with
  | some data => mints.insert mint data
  | none => mints

def newMintKeys (resolver : MintResolver Mint) (batch : List Row) : List Pubkey :=
  (batch.filterMap encoding.mintOf).filter fun mint =>
    !decide (mint = encoding.nativeMint) && (resolver.mints.lookup mint).isNone

/-- Looks up the mints of the batch that are new, in the mint cache or in the database. -/
def resolveMints (resolver : MintResolver Mint) (batch : List Row) : MintResolver Mint :=
  if encoding.resolves then
    { resolver with mints := (resolver.newMintKeys encoding batch).foldl (addMint encoding) resolver.mints }
  else resolver

/-- A mutable or a missing mint marks the response volatile. -/
def getMintData (resolver : MintResolver Mint) (row : Row) : MintResolver Mint × Option Mint :=
  if encoding.resolves then
    match encoding.mintOf row with
    | none => (resolver, none)
    | some mint =>
      if mint = encoding.nativeMint then (resolver, encoding.nativeData)
      else
        match resolver.mints.lookup mint with
        | some data =>
          (if encoding.immutable data then resolver else resolver.markAsVolatile .mutableMint, some data)
        | none => (resolver.markAsVolatile .mutableMint, none)
  else (resolver, none)

/-- Encodes one row, or leaves it out. -/
def encodeRow (state : MintResolver Mint × List Account) (row : Row) :
    Except Failure (MintResolver Mint × List Account) :=
  let looked := state.1.getMintData encoding row
  (encoding.encode row looked.2).map fun account =>
    if encoding.resolves && encoding.unparsed account then (looked.1.markAsVolatile .droppedAccount, state.2)
    else (looked.1, state.2 ++ [account])

def encodeBatch (resolver : MintResolver Mint) (batch : List Row) :
    Except Failure (MintResolver Mint × List Account) :=
  let batch := batch.filter encoding.valueCmp
  batch.foldlM (encodeRow encoding) (resolver.resolveMints encoding batch, [])

end MintResolver

/-! ## Both sides -/

/-- The query, the items the encoder has not received, its resolver and what it has yielded. -/
structure GpaStream (Row Mint Account Failure : Type) where
  query : GpaDbQuery Row Failure
  received : ℕ
  resolver : MintResolver Mint
  yielded : List (Except Failure (List Account))
  live : Bool

/-- `queryTimeUs` is the time the query has taken so far. -/
inductive GpaStreamEvent (Row : Type) where
  | row (row : Row)
  | failed (queryTimeUs : ℕ)
  | finished (queryTimeUs : ℕ)
  | timedOut
  | encode
  | mintLookupFailed
  | closed
  | dropped

/-- The batch size, the time limit of the query and the failure every internal error is answered with. -/
structure GpaStreamConfig (Failure : Type) where
  batchSize : Option ℕ
  queriesTimeoutUs : ℕ
  internalError : Failure

namespace GpaStream

variable {Row Mint Account Failure : Type} (config : GpaStreamConfig Failure)
  (encoding : GpaEncoding Row Mint Account Failure)

/-- `mints` are those the caller has read. -/
def new (mints : HashMap Pubkey Mint) : GpaStream Row Mint Account Failure :=
  ⟨.new, 0, ⟨mints, none⟩, [], true⟩

/-- The stream ends with its first error, and its receiver goes with it. -/
def failWith (stream : GpaStream Row Mint Account Failure) (failure : Failure) : GpaStream Row Mint Account Failure :=
  { stream with
    yielded := stream.yielded ++ [.error failure]
    live := false
    query := { stream.query with receiver := false } }

def encodeItem (stream : GpaStream Row Mint Account Failure) :
    Except Failure (List Row) → GpaStream Row Mint Account Failure
  | .error failure => stream.failWith failure
  | .ok batch =>
    match stream.resolver.encodeBatch encoding batch with
    | .error failure => stream.failWith failure
    | .ok (resolver, accounts) =>
      { stream with resolver, received := stream.received + 1, yielded := stream.yielded ++ [.ok accounts] }

/-- The lookup of the new mints of a batch fails. -/
def failLookup (stream : GpaStream Row Mint Account Failure) :
    Except Failure (List Row) → Option (GpaStream Row Mint Account Failure)
  | .error _ => none
  | .ok batch =>
    if encoding.resolves ∧ stream.resolver.newMintKeys encoding (batch.filter encoding.valueCmp) ≠ [] then
      some (stream.failWith config.internalError)
    else none

def step (stream : GpaStream Row Mint Account Failure) :
    GpaStreamEvent Row → Option (GpaStream Row Mint Account Failure)
  | .row row =>
    if stream.query.running then some { stream with query := stream.query.row config.batchSize row } else none
  | .failed queryTimeUs =>
    if stream.query.running then some { stream with query := stream.query.fail config.internalError queryTimeUs }
    else none
  | .finished queryTimeUs =>
    if stream.query.running then some { stream with query := stream.query.finish queryTimeUs } else none
  | .timedOut =>
    if stream.query.running then
      some { stream with query := stream.query.fail config.internalError config.queriesTimeoutUs }
    else none
  | .encode =>
    if stream.live then (stream.query.sent[stream.received]?).map (stream.encodeItem encoding) else none
  | .mintLookupFailed =>
    if stream.live then (stream.query.sent[stream.received]?).bind (stream.failLookup config encoding) else none
  | .closed =>
    if stream.live ∧ stream.query.running = false ∧ stream.received = stream.query.sent.length then
      some { stream with live := false }
    else none
  | .dropped =>
    if stream.live then some { stream with live := false, query := { stream.query with receiver := false } }
    else none

end GpaStream

end Cloudbreak.Model.Gpa
