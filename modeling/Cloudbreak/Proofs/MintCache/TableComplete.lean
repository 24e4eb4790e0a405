import Cloudbreak.Proofs.MintCache.WriteInvariant

/-! # The mints table is complete through the published slot

The lock is released between the check that no write runs and the start of the bootstrap's own write. A
block in between may fill a chunk, and then its write runs next to the bootstrap's.
-/

namespace Cloudbreak.Model.MintCache

open Cloudbreak.ToMathlib

namespace MintStore

/-- The first live write of a key is stored. -/
theorem apply_live_missing {store : MintStore} {key : Pubkey} (missing : store.get key = .missing) (slot : ℕ)
    (state : MintState) : ∃ next kind, store.apply key slot (.live state) = (next, some kind) ∧
      ∀ other, other ≠ key → next.get other = store.get other := by
  have after := fun other => get_apply store key other slot (.live state)
  cases accepted : (store.apply key slot (.live state)).2 with
  | none =>
    have same := after key
    rw [apply_eq_of_skipped accepted, if_pos rfl, missing] at same
    change StoredMint.missing = StoredMint.written slot state at same
    rw [StoredMint.written] at same
    split at same <;> contradiction
  | some kind =>
    exact ⟨_, kind, Prod.ext rfl accepted, fun other differs => (after other).trans (if_neg differs)⟩

end MintStore

namespace Inner

/-- First live writes of different keys all wait for a write to the table. -/
theorem length_pendingToDb_applyAll {inner : Inner} {slot : ℕ} {state : MintState} {keys : List Pubkey}
    (distinct : keys.Nodup) (fresh : ∀ key ∈ keys, inner.store.get key = .missing ∧ key ∉ inner.pendingToDb) :
    (inner.applyAll (blockWrites slot (keys.map fun key => (key, .live state)))).pendingToDb.entries.length =
      inner.pendingToDb.entries.length + keys.length ∧
    (inner.applyAll (blockWrites slot (keys.map fun key => (key, .live state)))).closedPending =
      inner.closedPending := by
  induction keys generalizing inner with
  | nil => exact ⟨rfl, rfl⟩
  | cons key rest ih =>
    obtain ⟨notAgain, distinctRest⟩ := List.nodup_cons.mp distinct
    obtain ⟨missing, absent⟩ := fresh key (List.mem_cons_self ..)
    obtain ⟨store, kind, applied, others⟩ := MintStore.apply_live_missing missing slot state
    have first : (inner.apply ⟨key, slot, .live state⟩).1 = { inner with store }.markPending key slot := by
      have notParked : inner.parks ⟨key, slot, .live state⟩ = none := if_neg fun both => by simp at both
      rw [apply, notParked]
      simp only [applied]
    have marked : (inner.pendingToDb.mergeMax (key, slot)).entries.length = inner.pendingToDb.entries.length + 1 := by
      rw [HashMap.mergeMax, AList.entries_insert_of_notMem absent, List.length_cons]
    have whole : inner.applyAll (blockWrites slot ((key :: rest).map fun key => (key, .live state))) =
        ({ inner with store }.markPending key slot).applyAll
          (blockWrites slot (rest.map fun key => (key, .live state))) :=
      congrArg (applyAll · _) first
    have freshRest : ∀ other ∈ rest, ({ inner with store }.markPending key slot).store.get other = .missing ∧
        other ∉ ({ inner with store }.markPending key slot).pendingToDb := by
      intro other member
      obtain ⟨otherMissing, otherAbsent⟩ := fresh other (List.mem_cons_of_mem _ member)
      have differs : other ≠ key := fun same => notAgain (same ▸ member)
      refine ⟨(others other differs).trans otherMissing, fun waits => ?_⟩
      exact ((AList.mem_insert _).mp waits).elim differs otherAbsent
    obtain ⟨length, closed⟩ := ih distinctRest freshRest
    rw [whole]
    refine ⟨length.trans ?_, closed⟩
    change (inner.pendingToDb.mergeMax (key, slot)).entries.length + rest.length = _
    rw [marked, List.length_cons]
    omega

end Inner

namespace MintIndexer

variable {interval : ℕ} {events : List IndexerEvent} {indexer : MintIndexer}

private theorem lastDbSlot_trySpawnWrite (indexer : MintIndexer) :
    indexer.trySpawnWrite.inner.lastDbSlot = indexer.inner.lastDbSlot := by
  rw [trySpawnWrite, Inner.startWriteIfNeeded]
  cases indexer.inner.dueWrite <;> rfl

/-- The slot remembered as the table's last only grows. -/
theorem Sound.lastDbSlot_mono (sound : Sound indexer) {event : IndexerEvent} {next : MintIndexer}
    (moves : indexer.step event = some next) {slot : ℕ} (isSlot : indexer.inner.lastDbSlot = some slot) :
    ∃ later, next.inner.lastDbSlot = some later ∧ slot ≤ later := by
  have kept : next.inner.lastDbSlot = indexer.inner.lastDbSlot →
      ∃ later, next.inner.lastDbSlot = some later ∧ slot ≤ later :=
    fun same => ⟨slot, same.trans isSlot, le_rfl⟩
  cases event with
  | snapshotAccount write =>
    cases moves
    exact kept ((lastDbSlot_trySpawnWrite _).trans (Inner.sameBooks_applyAll _ _).lastDbSlot)
  | block slot changes lowestGap =>
    cases moves
    exact kept ((lastDbSlot_trySpawnWrite _).trans (Inner.sameBooks_applyAll _ _).lastDbSlot)
  | bootstrapReady =>
    rw [MintIndexer.step] at moves
    split at moves
    · cases moves
      exact kept rfl
    · contradiction
  | bootstrapTakes =>
    rw [MintIndexer.step] at moves
    split at moves
    · cases moves
      exact kept (Inner.sameBooks_applyAll _ _).lastDbSlot
    · contradiction
  | upserted index =>
    obtain ⟨write, found, moves⟩ := Option.bind_eq_some_iff.mp moves
    split at moves
    · contradiction
    · cases moves
      exact kept rfl
  | published index =>
    obtain ⟨write, found, moves⟩ := Option.bind_eq_some_iff.mp moves
    split at moves
    · split at moves
      · cases moves
        exact kept rfl
      · contradiction
    · contradiction
  | succeeded index =>
    obtain ⟨write, found, moves⟩ := Option.bind_eq_some_iff.mp moves
    split at moves
    · cases moves
      cases isNew : write.newLastDbSlot with
      | none =>
        refine kept ?_
        change write.newLastDbSlot.orElse (fun _ => indexer.inner.lastDbSlot) = _
        rw [isNew]
        rfl
      | some later =>
        refine ⟨later, ?_, ?_⟩
        · change write.newLastDbSlot.orElse (fun _ => indexer.inner.lastDbSlot) = _
          rw [isNew]
          rfl
        · have promised : later ∈ indexer.inFlight.filterMap DbWrite.newLastDbSlot :=
            List.mem_filterMap.mpr ⟨write, List.mem_of_getElem? found, isNew⟩
          exact (List.pairwise_append.mp sound.ascending).2.2 slot (sound.memory slot isSlot) later promised
    · contradiction
  | failed index =>
    obtain ⟨write, found, rfl⟩ := Option.map_eq_some_iff.mp moves
    rw [MintIndexer.failed] at kept ⊢
    split
    · exact ⟨slot, isSlot, le_rfl⟩
    · exact ⟨slot, (sameBooks_putBack _ write.rows).lastDbSlot.trans isSlot, le_rfl⟩

/-- In every run whose blocks and bootstrap come in time, one write runs at a time, the published slots grow and
lie below the lowest gap, and the table has every change up to them. -/
theorem table_is_complete (run : Run (start interval) step (fun _ indexer event => indexer.InTime event) events
      indexer) :
    indexer.inFlight.length ≤ 1 ∧
    indexer.published.Pairwise (· ≤ ·) ∧
    (∀ slot, indexer.inner.lastDbSlot = some slot → slot ∈ indexer.published) ∧
    (∀ slot ∈ indexer.published, (∀ gap, indexer.inner.lowestGap = some gap → slot < gap) ∧
      CompleteThrough indexer.table indexer.changes slot) ∧
    (∀ pubkey row, latest indexer.changes pubkey = some row →
      indexer.inner.store.row pubkey row.slot = some row) ∧
    Ascending indexer.changes ∧
    ∀ event next, indexer.step event = some next → ∀ slot, indexer.inner.lastDbSlot = some slot →
      ∃ later, next.inner.lastDbSlot = some later ∧ slot ≤ later := by
  have sound : Sound indexer := Run.stateInvariant (sound_start interval)
    (fun _ _ _ _ sound guard moves => sound.step guard moves) run
  have covered : ∀ slot ∈ indexer.published, Covered indexer.inner slot := fun slot member =>
    sound.covered slot (List.mem_append_left _ member)
  refine ⟨?_, (List.pairwise_append.mp sound.ascending).1, sound.memory, ?_, sound.tracks.current,
    sound.tracks.ascending, fun event next moves slot isSlot => sound.lastDbSlot_mono moves isSlot⟩
  · rcases sound.state with ⟨nothing, _⟩ | ⟨write, _, _, single, _⟩
    · simp [nothing]
    · simp [single]
  · intro slot member
    refine ⟨(covered slot member).2, ?_⟩
    rcases sound.state with ⟨_, resting⟩ | ⟨write, taken, later, _, flying⟩
    · exact resting.complete slot member
    · exact flying.whole ▸ flying.writing.complete slot member

/-- The bootstrap ends with slot 0, then a block's mint is written and slot 20 published. -/
theorem table_is_complete_block :
    ∃ indexer, Run (start 10) step (fun _ indexer event => indexer.InTime event)
      [.bootstrapReady, .bootstrapTakes, .published 0, .succeeded 0,
        .block 20 [(7, .live ⟨6, none, true, fun _ => rfl⟩)] (some 30), .upserted 0, .published 0, .succeeded 0] indexer ∧
      20 ∈ indexer.published ∧ CompleteThrough indexer.table indexer.changes 20 := by
  have replayed : (Run.replay step (fun _ indexer event => indexer.InTime event) [] (start 10)
      [.bootstrapReady, .bootstrapTakes, .published 0, .succeeded 0,
        .block 20 [(7, .live ⟨6, none, true, fun _ => rfl⟩)] (some 30), .upserted 0, .published 0, .succeeded 0]).any
      (fun indexer => decide (20 ∈ indexer.published)) = true := by
    decide +kernel
  obtain ⟨indexer, ran, isPublished⟩ := (Option.any_eq_true _ _).mp replayed
  have run := Run.replayed ran
  have member := of_decide_eq_true isPublished
  exact ⟨indexer, run, member, ((table_is_complete run).2.2.2.1 20 member).2⟩

/-- A block that fills a chunk while the bootstrap waits for the lock. -/
theorem full_block_writes_beside_bootstrap {keys : List Pubkey} (distinct : keys.Nodup)
    (full : keys.length = upsertChunk) (state : MintState) :
    ∃ events indexer, Run (start interval) step (fun _ _ _ => True) events indexer ∧ indexer.inFlight.length = 2 ∧
      1 ∈ indexer.published ∧ ¬CompleteThrough indexer.table indexer.changes 1 := by
  let noted := (start interval).inner.noteBlock 1 none
  let changes := keys.map fun key => (key, MintChange.live state)
  let applied := noted.applyAll (Inner.blockWrites 1 changes)
  let rows := changedRows noted (Inner.blockWrites 1 changes)
  have tracks : Tracks [] noted := ⟨(sound_start interval).tracks.current, (sound_start interval).tracks.queued,
    (sound_start interval).tracks.ascending⟩
  obtain ⟨length, closed⟩ : applied.pendingToDb.entries.length = 0 + keys.length ∧ applied.closedPending = some ∅ :=
    Inner.length_pendingToDb_applyAll distinct fun key _ => ⟨MintStore.get_default key, AList.notMem_empty key⟩
  have books : SameBooks noted applied := Inner.sameBooks_applyAll noted _
  obtain ⟨changed, ofWrites⟩ := tracks.applyAll (Inner.blockWrites 1 changes)
  obtain ⟨row, inside, low⟩ : ∃ row ∈ rows, row.slot = 1 := by
    have waits : applied.pendingToDb.entries ≠ [] := fun empty => by
      rw [empty, full] at length
      exact absurd length (by decide)
    obtain ⟨⟨pubkey, slot⟩, member⟩ := List.exists_mem_of_ne_nil _ waits
    obtain ⟨row, isLatest, _⟩ := changed.queued pubkey slot (HashMap.lookup_eq_some_iff.mpr member)
    have inside := mem_of_latest isLatest
    obtain ⟨write, isWrite, low⟩ := (ofWrites row inside).2
    obtain ⟨change, _, rfl⟩ := List.mem_map.mp isWrite
    exact ⟨row, inside, low⟩
  have due : applied.dueWrite = some none := by
    have stopped : applied.dbWriteRunning = false := books.running
    have noSlot : applied.lastDbSlot = none := books.lastDbSlot
    rw [Inner.dueWrite, stopped, noSlot, if_neg Bool.false_ne_true]
    exact if_pos (by omega)
  let blocked : MintIndexer := {
    inner := { applied with dbWriteRunning := true, pendingToDb := ∅ }
    table := ∅
    inFlight := [.start applied.takePendingRows.1 none false]
    bootstrap := .readyToWrite
    changes := rows
    published := [] }
  have block : { start interval with bootstrap := .readyToWrite }.onBlock 1 changes none = blocked := by
    change MintIndexer.trySpawnWrite ⟨applied, ∅, [], .readyToWrite, rows, []⟩ = blocked
    rw [trySpawnWrite, Inner.startWriteIfNeeded]
    simp only [due]
    rfl
  have noCloses : blocked.inner.waitingCloses = [] := by
    change (applied.closedPending.getD ∅).toList.map _ = []
    rw [closed]
    rfl
  let taken : MintIndexer := {
    blocked with
    inner := { applied with closedPending := none, dbWriteRunning := true, pendingToDb := ∅ }
    inFlight := [.start applied.takePendingRows.1 none false, .start [] (some 1) true]
    bootstrap := .writing }
  have through : applied.completeThrough = 1 := by
    have noGap : applied.lowestGap = none := books.lowestGap
    rw [Inner.completeThrough, noGap]
    exact books.lastSlot
  have takes : blocked.bootstrapTakes = taken := by
    simp only [bootstrapTakes, Inner.applyWaitingCloses, noCloses]
    change (⟨_, _, [_, DbWrite.start [] (some applied.completeThrough) true], _, rows ++ [], _⟩ : MintIndexer) = taken
    rw [through, List.append_nil]
    rfl
  have readyStep : (start interval).step .bootstrapReady =
      some { start interval with bootstrap := .readyToWrite } := rfl
  have publishStep : taken.step (.published 1) = some { taken with
      inFlight := [.start applied.takePendingRows.1 none false, { DbWrite.start [] (some 1) true with published := true }]
      published := [1] } := rfl
  have ready : Run (start interval) step (fun _ _ _ => True) _ _ := .step .start trivial readyStep
  have blockStep : { start interval with bootstrap := .readyToWrite }.step (.block 1 changes none) = some blocked :=
    congrArg some block
  have takesStep : blocked.step .bootstrapTakes = some taken := congrArg some takes
  have run := ((ready.step trivial blockStep).step trivial takesStep).step trivial publishStep
  refine ⟨_, _, run, rfl, List.mem_singleton.mpr rfl, fun complete => ?_⟩
  obtain ⟨before, after, whole⟩ := List.append_of_mem inside
  obtain ⟨held, _, _, isHeld⟩ := complete before row after whole low.le
  exact absurd isHeld (by simp [taken, blocked])

/-- 50,000 new mints in a block between the bootstrap's check and its own write: two writes run at once, and the
slot of the second is published while the rows of the first are not in the table. -/
theorem two_writes_run_at_once :
    ∃ events indexer, Run (start 1) step (fun _ _ _ => True) events indexer ∧ indexer.inFlight.length = 2 ∧
      1 ∈ indexer.published ∧ ¬CompleteThrough indexer.table indexer.changes 1 := by
  have bound : upsertChunk ≤ 2 ^ 256 := by decide
  refine full_block_writes_beside_bootstrap ((List.nodup_finRange upsertChunk).map (Fin.castLE_injective bound)) ?_
    ⟨6, none, true, fun _ => rfl⟩
  rw [List.length_map, List.length_finRange]

end MintIndexer

end Cloudbreak.Model.MintCache
