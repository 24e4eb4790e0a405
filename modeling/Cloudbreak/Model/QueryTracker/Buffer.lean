import Cloudbreak.Model.QueryTracker.Demand

/-! # The client's buffer

The buffer with the value fingerprints of its entries, and the flush that drains it, sends batch after batch
and merges what was not sent back. The count of dropped identities, which only feeds a log line, is left out.
-/

namespace Cloudbreak.Model.QueryTracker

open Cloudbreak.ToMathlib
open Filters (U64 MemcmpLibrary Digest RpcProgramAccountsConfig IndexIdentity)

variable {Memcmp : Type}

def maxFingerprintsPerIdentity : ℕ := 256

/-- An observation with the fingerprints of the filter values seen. -/
structure BufferedObservation (Memcmp : Type) extends TrackObservation Memcmp where
  valueFingerprints : Finset U64

namespace BufferedObservation

def new (program : Pubkey) (config : Option (RpcProgramAccountsConfig Memcmp)) : BufferedObservation Memcmp :=
  { TrackObservation.new program config with valueFingerprints := ∅ }

/-- Counts one request. -/
def observe (entry : BufferedObservation Memcmp) (costUs : ℕ) (failed : Bool) (fingerprint : Option U64) :
    BufferedObservation Memcmp :=
  { entry.toTrackObservation.observe costUs failed with
    valueFingerprints :=
      match fingerprint with
      | some fp =>
        if entry.valueFingerprints.card < maxFingerprintsPerIdentity then insert fp entry.valueFingerprints
        else entry.valueFingerprints
      | none => entry.valueFingerprints }

/-- The loop of `merge` over the other fingerprints, up to the cap. -/
def insertFingerprints (held : Finset U64) : List U64 → Finset U64
  | [] => held
  | fp :: rest => if held.card ≥ maxFingerprintsPerIdentity then held else insertFingerprints (insert fp held) rest

/-- `fingerprints` are those of the other observation, in the order of its hash set. -/
def merge (entry other : BufferedObservation Memcmp) (fingerprints : List U64) : BufferedObservation Memcmp :=
  { entry.toTrackObservation.merge other.toTrackObservation with
    valueFingerprints := insertFingerprints entry.valueFingerprints fingerprints }

end BufferedObservation

abbrev BufferedEntry (Memcmp : Type) := String × BufferedObservation Memcmp

/-- The buffer and the flush under way. -/
structure Client (Memcmp : Type) where
  buffer : HashMap String (BufferedObservation Memcmp)
  flushing : Bool
  entries : List (BufferedEntry Memcmp)
  requeue : List (BufferedEntry Memcmp)

inductive BufferEvent (Memcmp : Type)
  | bufferQuery (program : Pubkey) (config : Option (RpcProgramAccountsConfig Memcmp)) (costUs : ℕ) (failed : Bool)
  | drain (order : List String)
  | sendSucceeds
  | sendFails
  | flushEnds (fingerprints : String → List U64)

namespace Client

def new : Client Memcmp := ⟨∅, false, [], []⟩

variable (library : MemcmpLibrary Memcmp) (blake3 : List UInt8 → Digest) (maxBuffered maxBatchSize : ℕ)

/-- A new identity is dropped when the buffer is full. A cap of zero counts as one. -/
def bufferQuery (client : Client Memcmp) (program : Pubkey) (config : Option (RpcProgramAccountsConfig Memcmp))
    (costUs : ℕ) (failed : Bool) : Client Memcmp :=
  match identify library blake3 program config with
  | none => client
  | some key =>
    if (client.buffer.lookup key).isNone ∧ client.buffer.entries.length ≥ max maxBuffered 1 then client
    else
      let entry := (client.buffer.lookup key).getD (.new program config)
      { client with
        buffer := client.buffer.insert key
          (entry.observe costUs failed (IndexIdentity.valueFingerprint library blake3 config)) }

/-- The next batch of the flush. A size of zero counts as one. -/
def chunk (client : Client Memcmp) : List (BufferedEntry Memcmp) := client.entries.take (max maxBatchSize 1)

/-- One entry of `requeue_entries`, which does not look at the cap. -/
def requeueEntry (fingerprints : String → List U64) (buffer : HashMap String (BufferedObservation Memcmp))
    (entry : BufferedEntry Memcmp) : HashMap String (BufferedObservation Memcmp) :=
  match buffer.lookup entry.1 with
  | some existing => buffer.insert entry.1 (existing.merge entry.2 (fingerprints entry.1))
  | none => buffer.insert entry.1 entry.2

def requeueEntries (fingerprints : String → List U64) (buffer : HashMap String (BufferedObservation Memcmp))
    (entries : List (BufferedEntry Memcmp)) : HashMap String (BufferedObservation Memcmp) :=
  entries.foldl (requeueEntry fingerprints) buffer

/-- A drain lists the entries in the order of the hash map. -/
def drained (client : Client Memcmp) (order : List String) : List (BufferedEntry Memcmp) :=
  order.filterMap fun key => (client.buffer.lookup key).map fun entry => (key, entry)

def step (client : Client Memcmp) : BufferEvent Memcmp → Option (Client Memcmp)
  | .bufferQuery program config costUs failed =>
    some (client.bufferQuery library blake3 maxBuffered program config costUs failed)
  | .drain order =>
    if client.flushing then none
    else some { buffer := ∅, flushing := true, entries := client.drained order, requeue := [] }
  | .sendSucceeds =>
    if client.flushing ∧ client.entries ≠ [] then
      some { client with entries := client.entries.drop (max maxBatchSize 1) }
    else none
  | .sendFails =>
    if client.flushing ∧ client.entries ≠ [] then
      some { client with
        entries := client.entries.drop (max maxBatchSize 1)
        requeue := client.requeue ++ client.chunk maxBatchSize }
    else none
  | .flushEnds fingerprints =>
    if client.flushing ∧ client.entries = [] then
      some { client with
        buffer := requeueEntries fingerprints client.buffer client.requeue, flushing := false, requeue := [] }
    else none

/-- The orders an event names are orders of what the client holds. -/
def Lists (client : Client Memcmp) : BufferEvent Memcmp → Prop
  | .drain order => order.Perm client.buffer.keys
  | .flushEnds fingerprints =>
    ∀ entry ∈ client.requeue,
      (fingerprints entry.1).Nodup ∧ (fingerprints entry.1).toFinset = entry.2.valueFingerprints
  | _ => True

instance (client : Client Memcmp) : DecidablePred client.Lists
  | .bufferQuery .. => inferInstanceAs (Decidable True)
  | .drain order => inferInstanceAs (Decidable (order.Perm client.buffer.keys))
  | .sendSucceeds => inferInstanceAs (Decidable True)
  | .sendFails => inferInstanceAs (Decidable True)
  | .flushEnds _ => inferInstanceAs (Decidable (∀ entry ∈ client.requeue, _ ∧ _))

end Client

end Cloudbreak.Model.QueryTracker
