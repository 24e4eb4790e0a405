import Cloudbreak.Model.Filters.IndexIdentity
import Cloudbreak.ToMathlib.HashMap

/-! # Demand from the API to the tracker

The API aggregates its requests in a buffer by pattern. A flush drains the buffer, posts it in batches and
puts the batches that failed back; the tracker commits a batch observation by observation and answers once.
A send that fails may have committed any first part of its batch: an observation can meet a database error,
and the answer can be lost. Value fingerprints and the example request are left out.
-/

namespace Cloudbreak.Model.QueryTracker

open Cloudbreak.ToMathlib
open Filters (U64 toI64 MemcmpLibrary Digest RpcProgramAccountsConfig IndexIdentity)

variable {Memcmp : Type}

/-- The aggregated requests of one pattern, with the first of them as its example. The counters are a
`u32`, a `u64` and a `u32`. -/
structure TrackObservation (Memcmp : Type) where
  program : Pubkey
  config : Option (RpcProgramAccountsConfig Memcmp)
  count : ℕ
  totalCostUs : ℕ
  failedCount : ℕ

def u32Max : ℕ := 2 ^ 32 - 1

def u64Max : ℕ := 2 ^ 64 - 1

def saturatingAdd (max left right : ℕ) : ℕ := min (left + right) max

namespace TrackObservation

def new (program : Pubkey) (config : Option (RpcProgramAccountsConfig Memcmp)) : TrackObservation Memcmp :=
  ⟨program, config, 0, 0, 0⟩

/-- Counts one request. -/
def observe (entry : TrackObservation Memcmp) (costUs : ℕ) (failed : Bool) : TrackObservation Memcmp :=
  { entry with
    count := saturatingAdd u32Max entry.count 1
    totalCostUs := saturatingAdd u64Max entry.totalCostUs costUs
    failedCount := if failed then saturatingAdd u32Max entry.failedCount 1 else entry.failedCount }

def merge (entry other : TrackObservation Memcmp) : TrackObservation Memcmp :=
  { entry with
    count := saturatingAdd u32Max entry.count other.count
    totalCostUs := saturatingAdd u64Max entry.totalCostUs other.totalCostUs
    failedCount := saturatingAdd u32Max entry.failedCount other.failedCount }

end TrackObservation

abbrev Entry (Memcmp : Type) := String × TrackObservation Memcmp

abbrev QueryBuffer (Memcmp : Type) := HashMap String (TrackObservation Memcmp)

/-- The demand columns of a row of `index_patterns`. -/
structure DemandRow where
  demandCount : ℤ
  totalCostUs : ℤ
  failedCount : ℤ
deriving DecidableEq, Repr

abbrev Store := HashMap String DemandRow

/-- A sum of two `BIGINT`s, which is an error out of range. -/
def bigintAdd (left right : ℤ) : Option ℤ :=
  if -2 ^ 63 ≤ left + right ∧ left + right < 2 ^ 63 then some (left + right) else none

/-- `value as i64`. -/
def asI64 (value : ℕ) : ℤ := toI64 (Fin.ofNat (2 ^ 64) value)

/-- The upsert of one observation. -/
def recordDemand (store : Store) (key : String) (observation : TrackObservation Memcmp) : Option Store :=
  match store.lookup key with
  | none =>
    some (store.insert key
      ⟨asI64 observation.count, asI64 observation.totalCostUs, asI64 observation.failedCount⟩)
  | some row => do
    let demandCount ← bigintAdd row.demandCount (asI64 observation.count)
    let totalCostUs ← bigintAdd row.totalCostUs (asI64 observation.totalCostUs)
    let failedCount ← bigintAdd row.failedCount (asI64 observation.failedCount)
    return store.insert key ⟨demandCount, totalCostUs, failedCount⟩

section Parsing

variable (library : MemcmpLibrary Memcmp) (blake3 : List UInt8 → Digest)

/-- The pattern id of a request, on either side of the wire. -/
def identify (program : Pubkey) (config : Option (RpcProgramAccountsConfig Memcmp)) : Option String :=
  (IndexIdentity.parse library program config).map (IndexIdentity.patternId blake3)

/-- One observation of a batch; one that is not indexable is skipped. -/
def applyObservation (store : Store) (observation : TrackObservation Memcmp) : Option Store :=
  match identify library blake3 observation.program observation.config with
  | none => some store
  | some key => recordDemand store key observation

/-- Commits observations one after another, up to the first database error. -/
def applyBatch (store : Store) (observations : List (TrackObservation Memcmp)) : Option Store :=
  observations.foldlM (applyObservation library blake3) store

end Parsing

/-- Puts a failed batch back, into whatever was counted since. -/
def requeueEntry (buffer : QueryBuffer Memcmp) (entry : Entry Memcmp) : QueryBuffer Memcmp :=
  match buffer.lookup entry.1 with
  | some existing => buffer.insert entry.1 (existing.merge entry.2)
  | none => buffer.insert entry.1 entry.2

def requeueEntries (buffer : QueryBuffer Memcmp) (entries : List (Entry Memcmp)) : QueryBuffer Memcmp :=
  entries.foldl requeueEntry buffer

/-- The client, its flush under way and the tracker's table. The last three fields are kept for the
statements only: the requests taken into the buffer, the entries of batches that succeeded, and the
entries that a failed batch had committed. -/
structure DemandSystem (Memcmp : Type) where
  buffer : QueryBuffer Memcmp
  flushing : Bool
  entries : List (Entry Memcmp)
  requeue : List (Entry Memcmp)
  store : Store
  accepted : List (Entry Memcmp)
  delivered : List (Entry Memcmp)
  repeated : List (Entry Memcmp)

inductive DemandEvent (Memcmp : Type)
  | bufferQuery (program : Pubkey) (config : Option (RpcProgramAccountsConfig Memcmp)) (costUs : ℕ) (failed : Bool)
  | drain (entries : List (Entry Memcmp))
  | sendSucceeds
  | sendFails (committed : ℕ)
  | flushEnds

namespace DemandSystem

def new : DemandSystem Memcmp := ⟨∅, false, [], [], ∅, [], [], []⟩

variable (library : MemcmpLibrary Memcmp) (blake3 : List UInt8 → Digest) (maxBuffered maxBatchSize : ℕ)

/-- A request of a new pattern is dropped when the buffer is full. -/
def bufferQuery (system : DemandSystem Memcmp) (program : Pubkey)
    (config : Option (RpcProgramAccountsConfig Memcmp)) (costUs : ℕ) (failed : Bool) : DemandSystem Memcmp :=
  match identify library blake3 program config with
  | none => system
  | some key =>
    if (system.buffer.lookup key).isNone ∧ system.buffer.entries.length ≥ max maxBuffered 1 then
      system
    else
      let entry := (system.buffer.lookup key).getD (.new program config)
      { system with
        buffer := system.buffer.insert key (entry.observe costUs failed)
        accepted := system.accepted ++ [(key, (TrackObservation.new program config).observe costUs failed)] }

/-- The next batch of the flush. A size of zero counts as one. -/
def chunk (system : DemandSystem Memcmp) : List (Entry Memcmp) := system.entries.take (max maxBatchSize 1)

/-- One step. A drain lists the buffer in the order of its hash map; a failed send commits a first part
of its batch. -/
def step (system : DemandSystem Memcmp) : DemandEvent Memcmp → Option (DemandSystem Memcmp)
  | .bufferQuery program config costUs failed =>
    some (system.bufferQuery library blake3 maxBuffered program config costUs failed)
  | .drain entries =>
    if system.flushing then none
    else some { system with buffer := ∅, flushing := true, entries, requeue := [] }
  | .sendSucceeds =>
    if system.flushing ∧ system.entries ≠ [] then do
      let store ← applyBatch library blake3 system.store ((system.chunk maxBatchSize).map Prod.snd)
      return { system with
        store
        entries := system.entries.drop (max maxBatchSize 1)
        delivered := system.delivered ++ system.chunk maxBatchSize }
    else none
  | .sendFails committed =>
    if system.flushing ∧ system.entries ≠ [] then do
      let store ← applyBatch library blake3 system.store (((system.chunk maxBatchSize).take committed).map Prod.snd)
      return { system with
        store
        entries := system.entries.drop (max maxBatchSize 1)
        requeue := system.requeue ++ system.chunk maxBatchSize
        repeated := system.repeated ++ (system.chunk maxBatchSize).take committed }
    else none
  | .flushEnds =>
    if system.flushing ∧ system.entries = [] then
      some { system with
        buffer := requeueEntries system.buffer system.requeue, flushing := false, requeue := [] }
    else none

end DemandSystem

end Cloudbreak.Model.QueryTracker
