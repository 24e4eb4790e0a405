import Cloudbreak.Model.QueryTracker.Buffer
import Cloudbreak.Proofs.QueryTracker.Demand

/-! # How many identities the buffer holds

A query never takes the buffer past its cap, and a drain empties it. Only the end of a flush adds identities
without looking at the cap: all that failed and were not seen again meanwhile. The bound survives a flush
exactly when these fit beside what the buffer holds by then.
-/

namespace Cloudbreak.Model.QueryTracker

open Cloudbreak.ToMathlib
open Filters (U64 MemcmpLibrary Digest RpcProgramAccountsConfig IndexIdentity)

variable {Memcmp : Type}

/-! ## Fingerprints -/

namespace BufferedObservation

/-- At most the cap of fingerprints. -/
def Within (entry : BufferedObservation Memcmp) : Prop :=
  entry.valueFingerprints.card ≤ maxFingerprintsPerIdentity

private theorem within_new (program : Pubkey) (config : Option (RpcProgramAccountsConfig Memcmp)) :
    (BufferedObservation.new program config).Within :=
  Nat.zero_le _

private theorem within_observe {entry : BufferedObservation Memcmp} (within : entry.Within) (costUs : ℕ) (failed : Bool)
    (fingerprint : Option U64) : (entry.observe costUs failed fingerprint).Within := by
  cases fingerprint with
  | none => exact within
  | some fp =>
    unfold Within observe
    dsimp only
    split
    · next room => exact (Finset.card_insert_le _ _).trans room
    · exact within

private theorem card_insertFingerprints {held : Finset U64} (within : held.card ≤ maxFingerprintsPerIdentity)
    (fingerprints : List U64) : (insertFingerprints held fingerprints).card ≤ maxFingerprintsPerIdentity := by
  induction fingerprints generalizing held with
  | nil => exact within
  | cons fp rest ih =>
    rw [insertFingerprints]
    split
    · exact within
    · next room => exact ih ((Finset.card_insert_le _ _).trans (Nat.lt_of_not_ge room))

private theorem within_merge {entry : BufferedObservation Memcmp} (within : entry.Within)
    (other : BufferedObservation Memcmp)
    (fingerprints : List U64) : (entry.merge other fingerprints).Within :=
  card_insertFingerprints within fingerprints

end BufferedObservation

/-! ## The size of the buffer -/

theorem length_insert {κ α : Type} [DecidableEq κ] (map : HashMap κ α) (key : κ) (value : α) :
    (map.insert key value).entries.length = map.entries.length + if (map.lookup key).isNone then 1 else 0 := by
  have size : ∀ map : HashMap κ α, HashMap.sum (fun _ _ => 1) map = map.entries.length := fun map => by
    rw [HashMap.sum, List.map_const', List.sum_replicate, smul_eq_mul, mul_one]
  rw [← size, ← size, HashMap.sum_insert_erase, ← HashMap.sum_erase _ map key]
  cases map.lookup key with
  | none => exact (Nat.add_comm _ _).trans (congrArg (· + 1) (Nat.zero_add _).symm)
  | some held => rfl

namespace Client

variable {client next : Client Memcmp} {fingerprints : String → List U64}

theorem lookup_requeueEntry (buffer : HashMap String (BufferedObservation Memcmp)) (entry : BufferedEntry Memcmp)
    (key : String) :
    (requeueEntry fingerprints buffer entry).lookup key =
      if key = entry.1 then
        some ((buffer.lookup key).elim entry.2 fun existing => existing.merge entry.2 (fingerprints entry.1))
      else buffer.lookup key := by
  unfold requeueEntry
  cases held : buffer.lookup entry.1 with
  | none =>
    dsimp only
    rw [HashMap.lookup_insert]
    split
    · next same => rw [same, held]; rfl
    · rfl
  | some existing =>
    dsimp only
    rw [HashMap.lookup_insert]
    split
    · next same => rw [same, held]; rfl
    · rfl

private theorem length_requeueEntry (buffer : HashMap String (BufferedObservation Memcmp))
    (entry : BufferedEntry Memcmp) :
    (requeueEntry fingerprints buffer entry).entries.length =
      buffer.entries.length + if (buffer.lookup entry.1).isNone then 1 else 0 := by
  unfold requeueEntry
  cases held : buffer.lookup entry.1 with
  | none =>
    dsimp only
    rw [length_insert, held]
  | some existing =>
    dsimp only
    rw [length_insert, held]

/-- The entries of other identities than the buffered ones. -/
def fresh (buffer : HashMap String (BufferedObservation Memcmp)) (entries : List (BufferedEntry Memcmp)) :
    List (BufferedEntry Memcmp) :=
  entries.filter fun entry => (buffer.lookup entry.1).isNone

private theorem length_requeueEntries {entries : List (BufferedEntry Memcmp)} (distinct : (entries.map Prod.fst).Nodup)
    (buffer : HashMap String (BufferedObservation Memcmp)) :
    (requeueEntries fingerprints buffer entries).entries.length =
      buffer.entries.length + (fresh buffer entries).length := by
  induction entries generalizing buffer with
  | nil => rfl
  | cons first rest ih =>
    obtain ⟨absent, distinct⟩ := List.nodup_cons.mp distinct
    have same : fresh (requeueEntry fingerprints buffer first) rest = fresh buffer rest := by
      refine List.filter_congr fun entry member => ?_
      have other : entry.1 ≠ first.1 := fun equal => absent (equal ▸ List.mem_map_of_mem member)
      rw [lookup_requeueEntry, if_neg other]
    have next := ih distinct (requeueEntry fingerprints buffer first)
    rw [same, length_requeueEntry] at next
    change (requeueEntries fingerprints (requeueEntry fingerprints buffer first) rest).entries.length = _
    rw [next, fresh, fresh, List.filter_cons]
    split
    · rw [List.length_cons]; omega
    · rfl

private theorem lookup_requeueEntries_other {entries : List (BufferedEntry Memcmp)} {key : String}
    (absent : key ∉ entries.map Prod.fst) (buffer : HashMap String (BufferedObservation Memcmp)) :
    (requeueEntries fingerprints buffer entries).lookup key = buffer.lookup key := by
  induction entries generalizing buffer with
  | nil => rfl
  | cons first rest ih =>
    rw [List.map_cons, List.mem_cons, not_or] at absent
    have after : (requeueEntry fingerprints buffer first).lookup key = _ := lookup_requeueEntry buffer first key
    rw [if_neg absent.1] at after
    exact (ih absent.2 (requeueEntry fingerprints buffer first)).trans after

/-- What failed is counted again, together with what was buffered of its identity meanwhile. -/
theorem lookup_requeueEntries {entries : List (BufferedEntry Memcmp)} (distinct : (entries.map Prod.fst).Nodup)
    {failed : BufferedEntry Memcmp} (member : failed ∈ entries)
    (buffer : HashMap String (BufferedObservation Memcmp)) :
    (requeueEntries fingerprints buffer entries).lookup failed.1 =
      some ((buffer.lookup failed.1).elim failed.2 fun seen => seen.merge failed.2 (fingerprints failed.1)) := by
  induction entries generalizing buffer with
  | nil => contradiction
  | cons first rest ih =>
    obtain ⟨absent, distinct⟩ := List.nodup_cons.mp distinct
    have after : (requeueEntry fingerprints buffer first).lookup failed.1 = _ :=
      lookup_requeueEntry buffer first failed.1
    rcases List.mem_cons.mp member with rfl | later
    · rw [if_pos rfl] at after
      exact (lookup_requeueEntries_other absent (requeueEntry fingerprints buffer failed)).trans after
    · have other : failed.1 ≠ first.1 := fun same => absent (same ▸ List.mem_map_of_mem later)
      rw [if_neg other] at after
      have ends := ih distinct later (requeueEntry fingerprints buffer first)
      rwa [after] at ends

/-! ## What a client keeps -/

/-- Every observation held or under way has at most the cap of fingerprints, and a flush names an identity
once. -/
structure Kept (client : Client Memcmp) : Prop where
  buffered : ∀ key entry, client.buffer.lookup key = some entry → entry.Within
  flushed : ∀ entry ∈ client.entries ++ client.requeue, entry.2.Within
  distinct : ((client.entries ++ client.requeue).map Prod.fst).Nodup

private theorem kept_new : (new : Client Memcmp).Kept where
  buffered := fun key entry held => by
    rw [show (new : Client Memcmp).buffer = ∅ from rfl, HashMap.lookup_empty] at held
    contradiction
  flushed := fun entry member => by contradiction
  distinct := List.nodup_nil

private theorem within_requeueEntries {entries : List (BufferedEntry Memcmp)}
    {buffer : HashMap String (BufferedObservation Memcmp)}
    (buffered : ∀ key entry, buffer.lookup key = some entry → entry.Within)
    (requeued : ∀ entry ∈ entries, entry.2.Within) {key : String} {entry : BufferedObservation Memcmp}
    (held : (requeueEntries fingerprints buffer entries).lookup key = some entry) : entry.Within := by
  induction entries generalizing buffer with
  | nil => exact buffered key entry held
  | cons first rest ih =>
    refine ih (fun key entry held => ?_) (fun entry member => requeued entry (List.mem_cons_of_mem _ member)) held
    rw [lookup_requeueEntry] at held
    split at held
    · cases existing : buffer.lookup key with
      | none =>
        rw [existing] at held
        cases held
        exact requeued first List.mem_cons_self
      | some other =>
        rw [existing] at held
        cases held
        exact BufferedObservation.within_merge (buffered key other existing) _ _
    · exact buffered key entry held

private theorem mem_drained {order : List String} {entry : BufferedEntry Memcmp}
    (member : entry ∈ client.drained order) :
    client.buffer.lookup entry.1 = some entry.2 := by
  obtain ⟨key, -, listed⟩ := List.mem_filterMap.mp member
  obtain ⟨held, found, rfl⟩ := Option.map_eq_some_iff.mp listed
  exact found

private theorem keys_drained {order : List String} (lists : order.Perm client.buffer.keys) :
    (client.drained order).map Prod.fst = order := by
  have every : ∀ key ∈ order, (client.buffer.lookup key).isSome := fun key member =>
    AList.lookup_isSome.mpr (AList.mem_keys.mp (lists.subset member))
  rw [drained]
  clear lists
  induction order with
  | nil => rfl
  | cons key rest ih =>
    obtain ⟨held, found⟩ := Option.isSome_iff_exists.mp (every key List.mem_cons_self)
    rw [List.filterMap_cons, found, Option.map_some, List.map_cons,
      ih fun other member => every other (List.mem_cons_of_mem _ member)]

section Steps

variable {library : MemcmpLibrary Memcmp} {blake3 : List UInt8 → Digest} {maxBuffered maxBatchSize : ℕ}
  {event : BufferEvent Memcmp}

/-- What a query does to the buffer. -/
theorem bufferQuery_cases (program : Pubkey) (config : Option (RpcProgramAccountsConfig Memcmp)) (costUs : ℕ)
    (failed : Bool) :
    client.bufferQuery library blake3 maxBuffered program config costUs failed = client ∨
      ∃ key, identify library blake3 program config = some key ∧
        ((client.buffer.lookup key).isNone → client.buffer.entries.length < max maxBuffered 1) ∧
        client.bufferQuery library blake3 maxBuffered program config costUs failed = { client with
          buffer := client.buffer.insert key
            (((client.buffer.lookup key).getD (.new program config)).observe costUs failed
              (IndexIdentity.valueFingerprint library blake3 config)) } := by
  unfold bufferQuery
  cases identified : identify library blake3 program config with
  | none => exact Or.inl rfl
  | some key =>
    dsimp only
    split
    · exact Or.inl rfl
    · next room => exact Or.inr ⟨key, rfl, fun absent => Nat.lt_of_not_ge fun full => room ⟨absent, full⟩, rfl⟩

private theorem kept_step (kept : client.Kept) (lists : client.Lists event)
    (moves : client.step library blake3 maxBuffered maxBatchSize event = some next) : next.Kept := by
  cases event with
  | bufferQuery program config costUs failed =>
    cases moves
    rcases bufferQuery_cases program config costUs failed with same | ⟨key, -, -, inserted⟩
    · rw [same]
      exact kept
    · rw [inserted]
      refine ⟨fun other entry held => ?_, kept.flushed, kept.distinct⟩
      rw [HashMap.lookup_insert] at held
      split at held
      · cases held
        apply BufferedObservation.within_observe
        cases existing : client.buffer.lookup key with
        | none => exact BufferedObservation.within_new program config
        | some old => exact kept.buffered key old existing
      · exact kept.buffered other entry held
  | drain order =>
    rw [step] at moves
    split at moves
    · contradiction
    · cases moves
      refine ⟨fun key entry held => ?_, fun entry member => ?_, ?_⟩
      · rw [HashMap.lookup_empty] at held
        contradiction
      · rw [List.append_nil] at member
        exact kept.buffered entry.1 entry.2 (mem_drained member)
      · rw [List.append_nil, keys_drained lists]
        exact lists.nodup_iff.mpr client.buffer.keys_nodup
  | sendSucceeds =>
    rw [step] at moves
    split at moves
    · cases moves
      have rest : (client.entries.drop (max maxBatchSize 1) ++ client.requeue).Sublist
          (client.entries ++ client.requeue) := (List.drop_sublist _ _).append_right _
      exact ⟨kept.buffered, fun entry member => kept.flushed entry (rest.subset member),
        kept.distinct.sublist (rest.map _)⟩
    · contradiction
  | sendFails =>
    rw [step] at moves
    split at moves
    · cases moves
      have moved : (client.entries.drop (max maxBatchSize 1) ++ (client.requeue ++ client.chunk maxBatchSize)).Perm
          (client.entries ++ client.requeue) := by
        rw [← List.append_assoc, chunk]
        refine (List.perm_append_comm).trans ?_
        rw [← List.append_assoc, List.take_append_drop]
      exact ⟨kept.buffered, fun entry member => kept.flushed entry (moved.subset member),
        (moved.map _).nodup_iff.mpr kept.distinct⟩
    · contradiction
  | flushEnds fingerprints =>
    rw [step] at moves
    split at moves
    · next finished =>
      cases moves
      have requeued : ∀ entry ∈ client.requeue, entry.2.Within := fun entry member =>
        kept.flushed entry (List.mem_append_right _ member)
      refine ⟨fun key entry held => within_requeueEntries kept.buffered requeued held, fun entry member => ?_, ?_⟩
      · rw [finished.2] at member
        contradiction
      · rw [finished.2]
        exact List.nodup_nil
    · contradiction

/-- What failed and was not seen again fits beside what the buffer holds. -/
def RequeueFits (maxBuffered : ℕ) (client : Client Memcmp) : BufferEvent Memcmp → Prop
  | .flushEnds _ =>
    client.buffer.entries.length + (fresh client.buffer client.requeue).length ≤ max maxBuffered 1
  | _ => True

instance : DecidablePred (client.RequeueFits maxBuffered)
  | .bufferQuery .. => inferInstanceAs (Decidable True)
  | .drain _ => inferInstanceAs (Decidable True)
  | .sendSucceeds => inferInstanceAs (Decidable True)
  | .sendFails => inferInstanceAs (Decidable True)
  | .flushEnds _ => inferInstanceAs (Decidable (_ ≤ _))

/-- From a buffer within the cap an event leads to one within the cap exactly when its requeue fits. -/
theorem bounded_step_iff (kept : client.Kept) (bounded : client.buffer.entries.length ≤ max maxBuffered 1)
    (moves : client.step library blake3 maxBuffered maxBatchSize event = some next) :
    next.buffer.entries.length ≤ max maxBuffered 1 ↔ client.RequeueFits maxBuffered event := by
  cases event with
  | bufferQuery program config costUs failed =>
    cases moves
    refine iff_of_true ?_ trivial
    rcases bufferQuery_cases program config costUs failed with same | ⟨key, -, room, inserted⟩
    · rw [same]
      exact bounded
    · rw [inserted]
      dsimp only
      rw [length_insert]
      split
      · next absent => exact room absent
      · exact bounded
  | drain order =>
    rw [step] at moves
    split at moves
    · contradiction
    · cases moves
      exact iff_of_true (Nat.zero_le _) trivial
  | sendSucceeds =>
    rw [step] at moves
    split at moves
    · cases moves
      exact iff_of_true bounded trivial
    · contradiction
  | sendFails =>
    rw [step] at moves
    split at moves
    · cases moves
      exact iff_of_true bounded trivial
    · contradiction
  | flushEnds fingerprints =>
    rw [step] at moves
    split at moves
    · cases moves
      have distinct := kept.distinct
      rw [List.map_append] at distinct
      dsimp only
      rw [length_requeueEntries distinct.of_append_right]
      rfl
    · contradiction

end Steps

/-! ## Runs -/

section Runs

variable {library : MemcmpLibrary Memcmp} {blake3 : List UInt8 → Digest} {maxBuffered maxBatchSize : ℕ}
  {events : List (BufferEvent Memcmp)}

/-- The identities stay within the cap, the fingerprints of every entry within theirs, a buffered identity counts every
further query, and the end of a flush adds the counts of what failed. -/
structure Bounded (library : MemcmpLibrary Memcmp) (blake3 : List UInt8 → Digest) (maxBuffered maxBatchSize : ℕ)
    (client : Client Memcmp) : Prop where
  identities : client.buffer.entries.length ≤ max maxBuffered 1
  fingerprints : ∀ key entry, client.buffer.lookup key = some entry → entry.Within
  underWay : ∀ entry ∈ client.entries ++ client.requeue, entry.2.Within
  aggregates : ∀ program config costUs failed key entry, identify library blake3 program config = some key →
    client.buffer.lookup key = some entry →
      (client.step library blake3 maxBuffered maxBatchSize (.bufferQuery program config costUs failed)).map
          (fun next => next.buffer.lookup key) =
        some (some (entry.observe costUs failed (IndexIdentity.valueFingerprint library blake3 config)))
  requeues : ∀ fingerprints, ∀ failed ∈ client.requeue, ∀ next,
    client.step library blake3 maxBuffered maxBatchSize (.flushEnds fingerprints) = some next →
      next.buffer.lookup failed.1 =
        some ((client.buffer.lookup failed.1).elim failed.2 fun seen => seen.merge failed.2 (fingerprints failed.1))

theorem Kept.requeues (kept : client.Kept) {failed : BufferedEntry Memcmp} (member : failed ∈ client.requeue)
    (ends : client.step library blake3 maxBuffered maxBatchSize (.flushEnds fingerprints) = some next) :
    next.buffer.lookup failed.1 =
      some ((client.buffer.lookup failed.1).elim failed.2 fun seen => seen.merge failed.2 (fingerprints failed.1)) := by
  have distinct := kept.distinct
  rw [List.map_append] at distinct
  rw [step] at ends
  split at ends
  · cases ends
    exact lookup_requeueEntries distinct.of_append_right member client.buffer
  · contradiction

private theorem bufferQuery_aggregates {program : Pubkey} {config : Option (RpcProgramAccountsConfig Memcmp)}
    {key : String}
    {entry : BufferedObservation Memcmp} (identified : identify library blake3 program config = some key)
    (held : client.buffer.lookup key = some entry) (costUs : ℕ) (failed : Bool) :
    (client.bufferQuery library blake3 maxBuffered program config costUs failed).buffer.lookup key =
      some (entry.observe costUs failed (IndexIdentity.valueFingerprint library blake3 config)) := by
  unfold bufferQuery
  rw [identified]
  simp only [held, Option.isNone_some, Bool.false_eq_true, false_and, if_false, Option.getD_some]
  rw [HashMap.lookup_insert, if_pos rfl]

theorem kept_run {allowed : List (BufferEvent Memcmp) → Client Memcmp → BufferEvent Memcmp → Prop}
    (lists : ∀ events client event, allowed events client event → client.Lists event)
    (run : Run new (fun client => client.step library blake3 maxBuffered maxBatchSize) allowed events client) :
    client.Kept := by
  refine run.stateInvariant kept_new fun events state event next kept guard moves => ?_
  exact kept_step kept (lists _ _ _ guard) moves

/-- While every requeue fits, the buffer is bounded; and from such a buffer, one that does not fit exceeds the
cap. -/
theorem buffer_bounded_iff_requeues_fit
    (run : Run new (fun client => client.step library blake3 maxBuffered maxBatchSize)
      (fun _ client event => client.Lists event ∧ client.RequeueFits maxBuffered event) events client) :
    client.Bounded library blake3 maxBuffered maxBatchSize ∧
      ∀ event next, client.Lists event → client.step library blake3 maxBuffered maxBatchSize event = some next →
        (next.Bounded library blake3 maxBuffered maxBatchSize ↔ client.RequeueFits maxBuffered event) := by
  have kept : client.Kept := kept_run (fun _ _ _ guard => guard.1) run
  have identities : client.buffer.entries.length ≤ max maxBuffered 1 := by
    induction run with
    | start => exact Nat.zero_le _
    | step before guard moves ih =>
      have keptBefore : Client.Kept _ := kept_run (fun _ _ _ guard => guard.1) before
      exact (bounded_step_iff keptBefore (ih keptBefore) moves).mpr guard.2
  refine ⟨⟨identities, kept.buffered, kept.flushed, fun program config costUs failed key entry identified held => ?_,
      fun _ _ member _ ends => kept.requeues member ends⟩,
    fun event next lists moves => ⟨fun bounded => ?_, fun fits => ?_⟩⟩
  · exact congrArg some (bufferQuery_aggregates identified held costUs failed)
  · exact (bounded_step_iff kept identities moves).mp bounded.identities
  · have keptNext := kept_step kept lists moves
    refine ⟨(bounded_step_iff kept identities moves).mpr fits, keptNext.buffered, keptNext.flushed,
      fun program config costUs failed key entry identified held => ?_,
      fun _ _ member _ ends => keptNext.requeues member ends⟩
    exact congrArg some (bufferQuery_aggregates identified held costUs failed)

/-- The digests of program one and of program two with a data size of 165. -/
def sizedDigests (bytes : List UInt8) : Digest :=
  if bytes.getD 31 0 = 1 then sizedDigest
  else
    ⟨[0xf0, 0x4c, 0xa4, 0x5c, 0x13, 0x4b, 0xfb, 0x57, 0x35, 0xa1, 0x74, 0x15, 0x06, 0xea, 0x13, 0xa0,
      0x48, 0x91, 0xd0, 0x8c, 0xd0, 0x44, 0x2e, 0xbf, 0xf6, 0x12, 0xf9, 0xc3, 0x5f, 0xe7, 0x17, 0xf7], rfl⟩

/-- One identity fails to be sent while another one is buffered. -/
def refilledDuringFailure : List (BufferEvent Empty) :=
  [.bufferQuery 1 sizedConfig 250 false, .drain ["1384a90947f333ff"], .bufferQuery 2 sizedConfig 250 false,
    .sendFails, .flushEnds fun _ => []]

/-- With a cap of one, two identities are buffered once the failed one is back. -/
theorem requeue_exceeds_the_cap :
    ¬ ∀ (library : MemcmpLibrary Empty) (blake3 : List UInt8 → Digest) (maxBuffered maxBatchSize : ℕ)
      (events : List (BufferEvent Empty)) (client : Client Empty), 1 ≤ maxBuffered →
      Run new (fun client => client.step library blake3 maxBuffered maxBatchSize)
        (fun _ client event => client.Lists event) events client →
      client.buffer.entries.length ≤ maxBuffered := by
  intro bounded
  have replayed : (Run.replay (fun client => client.step noMemcmp sizedDigests 1 5)
      (fun _ client event => client.Lists event) [] new refilledDuringFailure).any
      (fun client => decide (client.buffer.entries.length = 2)) = true := by decide +kernel
  obtain ⟨client, ran, size⟩ := (Option.any_eq_true _ _).mp replayed
  have small := bounded noMemcmp sizedDigests 1 5 _ _ le_rfl (Run.replayed ran)
  rw [of_decide_eq_true size] at small
  contradiction

/-- With a cap of two the failed identity fits beside the other. -/
theorem buffer_bounded_refilledDuringFailure :
    ∃ client, Run new (fun client => client.step noMemcmp sizedDigests 2 5)
        (fun _ client event => client.Lists event ∧ client.RequeueFits 2 event) refilledDuringFailure client ∧
      client.buffer.entries.length = 2 ∧ client.Bounded noMemcmp sizedDigests 2 5 := by
  have replayed : (Run.replay (fun client => client.step noMemcmp sizedDigests 2 5)
      (fun _ client event => client.Lists event ∧ client.RequeueFits 2 event) [] new refilledDuringFailure).any
      (fun client => decide (client.buffer.entries.length = 2)) = true := by decide +kernel
  obtain ⟨client, ran, size⟩ := (Option.any_eq_true _ _).mp replayed
  have run := Run.replayed ran
  exact ⟨client, run, of_decide_eq_true size, (buffer_bounded_iff_requeues_fit run).1⟩

end Runs

end Client

end Cloudbreak.Model.QueryTracker
