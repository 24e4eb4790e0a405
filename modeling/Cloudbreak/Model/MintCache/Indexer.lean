import Cloudbreak.ToMathlib.MaxMerge
import Cloudbreak.Model.MintCache.Store

/-! # The indexer's mint cache and the mints table

Snapshot accounts and confirmed blocks are applied to the store under one lock. Changed keys wait for a write
to the `mints` table, which runs in the background: its rows go in chunk by chunk, then the slot the table is
complete through, and only then does the indexer hear how it went. Metrics and the debug view are left out.
-/

namespace Cloudbreak.Model.MintCache

open Cloudbreak.ToMathlib

/-- Rows per upsert statement. -/
def upsertChunk : ℕ := 50000

/-- One account write, with its slot. -/
structure AccountWrite where
  pubkey : Pubkey
  slot : ℕ
  change : MintChange
deriving DecidableEq, Repr

/-- What the indexer keeps under its lock. `closedPending` is there only while the bootstrap runs. -/
structure Inner where
  store : MintStore
  closedPending : Option (HashMap Pubkey ℕ)
  pendingToDb : HashMap Pubkey ℕ
  lastSlot : ℕ
  lowestGap : Option ℕ
  lastDbSlot : Option ℕ
  dbWriteRunning : Bool
  dbWriteIntervalSlots : ℕ

namespace Inner

def new (dbWriteIntervalSlots : ℕ) : Inner where
  store := .default
  closedPending := some ∅
  pendingToDb := ∅
  lastSlot := 0
  lowestGap := none
  lastDbSlot := none
  dbWriteRunning := false
  dbWriteIntervalSlots := dbWriteIntervalSlots

def markPending (inner : Inner) (pubkey : Pubkey) (slot : ℕ) : Inner :=
  { inner with pendingToDb := inner.pendingToDb.mergeMax (pubkey, slot) }

/-- The closes to wait in, when the bootstrap runs and the write closes a key the store does not hold. -/
def parks (inner : Inner) (write : AccountWrite) : Option (HashMap Pubkey ℕ) :=
  if write.change = .closed ∧ inner.store.get write.pubkey = .missing then inner.closedPending else none

/-- Applies one change and marks a changed key for the next write. -/
def apply (inner : Inner) (write : AccountWrite) : Inner × Option ChangeKind :=
  match inner.parks write with
  | some closedPending =>
    ({ inner with closedPending := some (closedPending.mergeMax (write.pubkey, write.slot)) }, none)
  | none =>
    match inner.store.apply write.pubkey write.slot write.change with
    | (_, none) => (inner, none)
    | (store, some kind) => ({ inner with store }.markPending write.pubkey write.slot, some kind)

def applyAll (inner : Inner) (writes : List AccountWrite) : Inner :=
  writes.foldl (fun current write => (current.apply write).1) inner

/-- The rows of every key changed since the last write. -/
def takePendingRows (inner : Inner) : List MintRow × Inner :=
  (inner.pendingToDb.toList.filterMap fun item => inner.store.row item.1 item.2, { inner with pendingToDb := ∅ })

/-- The highest slot applied, but never at or past an open gap. -/
def completeThrough (inner : Inner) : ℕ :=
  match inner.lowestGap with
  | some gap => min inner.lastSlot (gap - 1)
  | none => inner.lastSlot

/-- The slot to publish with a write that is due: none yet while the bootstrap runs. -/
def dueWrite (inner : Inner) : Option (Option ℕ) :=
  if inner.dbWriteRunning then none
  else
    match inner.lastDbSlot with
    | none => if inner.pendingToDb.entries.length ≥ upsertChunk then some none else none
    | some lastDbSlot =>
      if inner.completeThrough ≥ lastDbSlot + inner.dbWriteIntervalSlots then some (some inner.completeThrough)
      else none

def startWriteIfNeeded (inner : Inner) : Option (List MintRow × Option ℕ) × Inner :=
  match inner.dueWrite with
  | none => (none, inner)
  | some newLastDbSlot =>
    let (rows, inner) := { inner with dbWriteRunning := true }.takePendingRows
    (some (rows, newLastDbSlot), inner)

def noteSlot (inner : Inner) (slot : ℕ) : Inner := { inner with lastSlot := max inner.lastSlot slot }

def onSnapshotAccount (inner : Inner) (write : AccountWrite) : Inner := (inner.noteSlot write.slot).applyAll [write]

/-- The changes of a block, as writes at its slot. -/
def blockWrites (slot : ℕ) (changes : List (Pubkey × MintChange)) : List AccountWrite :=
  changes.map fun write => ⟨write.1, slot, write.2⟩

def noteBlock (inner : Inner) (slot : ℕ) (lowestGap : Option ℕ) : Inner := { inner.noteSlot slot with lowestGap }

def onBlock (inner : Inner) (slot : ℕ) (changes : List (Pubkey × MintChange)) (lowestGap : Option ℕ) : Inner :=
  (inner.noteBlock slot lowestGap).applyAll (blockWrites slot changes)

/-- The closes that waited, as writes. -/
def waitingCloses (inner : Inner) : List AccountWrite :=
  (inner.closedPending.getD ∅).toList.map fun item => ⟨item.1, item.2, .closed⟩

def endBootstrap (inner : Inner) : Inner := { inner with closedPending := none }

/-- The end of the bootstrap: the waiting closes are applied. -/
def applyWaitingCloses (inner : Inner) : Inner := inner.endBootstrap.applyAll inner.waitingCloses

end Inner

/-- A write on its way: its rows, those not upserted yet, and whether its slot has been published. -/
structure DbWrite where
  rows : List MintRow
  remaining : List MintRow
  newLastDbSlot : Option ℕ
  published : Bool
  ofBootstrap : Bool

namespace DbWrite

def start (rows : List MintRow) (newLastDbSlot : Option ℕ) (ofBootstrap : Bool) : DbWrite :=
  ⟨rows, rows, newLastDbSlot, false, ofBootstrap⟩

end DbWrite

/-- A row never overwrites a newer one. -/
def upsertRow (table : HashMap Pubkey MintRow) (row : MintRow) : HashMap Pubkey MintRow :=
  match table.lookup row.pubkey with
  | some held => if held.slot ≤ row.slot then table.insert row.pubkey row else table
  | none => table.insert row.pubkey row

inductive Bootstrap where
  | loading
  | readyToWrite
  | writing
  | done
  | failed
deriving DecidableEq

/-- The indexer with the table, the writes in flight and the history: the row of every store change, and every
slot published. -/
structure MintIndexer where
  inner : Inner
  table : HashMap Pubkey MintRow
  inFlight : List DbWrite
  bootstrap : Bootstrap
  changes : List MintRow
  published : List ℕ

inductive IndexerEvent where
  | snapshotAccount (write : AccountWrite)
  | block (slot : ℕ) (changes : List (Pubkey × MintChange)) (lowestGap : Option ℕ)
  | bootstrapReady
  | bootstrapTakes
  | upserted (index : ℕ)
  | published (index : ℕ)
  | succeeded (index : ℕ)
  | failed (index : ℕ)
deriving DecidableEq

namespace MintIndexer

def start (dbWriteIntervalSlots : ℕ) : MintIndexer := ⟨.new dbWriteIntervalSlots, ∅, [], .loading, [], []⟩

/-- The rows of the changes that writes make, in order. -/
def changedRows (inner : Inner) : List AccountWrite → List MintRow
  | [] => []
  | write :: rest =>
    let (next, kind) := inner.apply write
    (if kind.isSome then (next.store.row write.pubkey write.slot).toList else []) ++ changedRows next rest

def trySpawnWrite (indexer : MintIndexer) : MintIndexer :=
  match indexer.inner.startWriteIfNeeded with
  | (none, _) => indexer
  | (some (rows, newLastDbSlot), inner) =>
    { indexer with inner, inFlight := indexer.inFlight ++ [.start rows newLastDbSlot false] }

def onSnapshotAccount (indexer : MintIndexer) (write : AccountWrite) : MintIndexer :=
  { indexer with
    inner := indexer.inner.onSnapshotAccount write
    changes := indexer.changes ++ changedRows (indexer.inner.noteSlot write.slot) [write] }.trySpawnWrite

def onBlock (indexer : MintIndexer) (slot : ℕ) (changes : List (Pubkey × MintChange)) (lowestGap : Option ℕ) :
    MintIndexer :=
  { indexer with
    inner := indexer.inner.onBlock slot changes lowestGap
    changes := indexer.changes ++
      changedRows (indexer.inner.noteBlock slot lowestGap) (Inner.blockWrites slot changes) }.trySpawnWrite

/-- The bootstrap takes its rows, whatever has been started since it found no write running. -/
def bootstrapTakes (indexer : MintIndexer) : MintIndexer :=
  let applied := indexer.inner.applyWaitingCloses
  let (rows, inner) := { applied with dbWriteRunning := true }.takePendingRows
  { indexer with
    inner
    inFlight := indexer.inFlight ++ [.start rows (some inner.completeThrough) true]
    bootstrap := .writing
    changes := indexer.changes ++ changedRows indexer.inner.endBootstrap indexer.inner.waitingCloses }

/-- The next chunk of a write. -/
def upserted (indexer : MintIndexer) (index : ℕ) (write : DbWrite) : MintIndexer :=
  { indexer with
    table := (write.remaining.take upsertChunk).foldl upsertRow indexer.table
    inFlight := indexer.inFlight.set index { write with remaining := write.remaining.drop upsertChunk } }

def succeeded (indexer : MintIndexer) (index : ℕ) (write : DbWrite) : MintIndexer :=
  { indexer with
    inner := { indexer.inner with
      dbWriteRunning := false
      lastDbSlot := write.newLastDbSlot.orElse fun _ => indexer.inner.lastDbSlot }
    inFlight := indexer.inFlight.eraseIdx index
    bootstrap := if write.ofBootstrap then .done else indexer.bootstrap }

/-- A failed background write puts its keys back. A failed bootstrap gives up with the write still marked. -/
def failed (indexer : MintIndexer) (index : ℕ) (write : DbWrite) : MintIndexer :=
  let left := { indexer with inFlight := indexer.inFlight.eraseIdx index }
  if write.ofBootstrap then { left with bootstrap := .failed }
  else { left with
    inner := write.rows.foldl (fun inner row => inner.markPending row.pubkey row.slot)
      { indexer.inner with dbWriteRunning := false } }

def step (indexer : MintIndexer) : IndexerEvent → Option MintIndexer
  | .snapshotAccount write => some (indexer.onSnapshotAccount write)
  | .block slot changes lowestGap => some (indexer.onBlock slot changes lowestGap)
  | .bootstrapReady =>
    if indexer.bootstrap = .loading ∧ indexer.inner.dbWriteRunning = false then
      some { indexer with bootstrap := .readyToWrite }
    else none
  | .bootstrapTakes => if indexer.bootstrap = .readyToWrite then some indexer.bootstrapTakes else none
  | .upserted index => indexer.inFlight[index]?.bind fun write =>
    if write.remaining = [] then none else some (indexer.upserted index write)
  | .published index => indexer.inFlight[index]?.bind fun write =>
    match write.newLastDbSlot with
    | some slot =>
      if write.remaining = [] ∧ write.published = false then
        some { indexer with
          inFlight := indexer.inFlight.set index { write with published := true }
          published := indexer.published ++ [slot] }
      else none
    | none => none
  | .succeeded index => indexer.inFlight[index]?.bind fun write =>
    if write.remaining = [] ∧ (write.published = true ∨ write.newLastDbSlot = none) then
      some (indexer.succeeded index write)
    else none
  | .failed index => indexer.inFlight[index]?.map (indexer.failed index)

end MintIndexer

end Cloudbreak.Model.MintCache
