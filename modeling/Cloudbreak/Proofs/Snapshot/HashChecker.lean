import Cloudbreak.Model.Snapshot.HashChecker
import Cloudbreak.ToMathlib.Run

/-! # What the hash checker compares

Every update received is processed once and in order, but for those past the covered slot that came when the checker
already buffered. No slot past the covered one is finalized, so the versions that the covered slot needs are still
there, and the loop only stops once the covered slot has been finalized.
-/

namespace Cloudbreak.Model.Snapshot

open Cloudbreak.ToMathlib

variable {config : HashCheckerConfig} {pair : SnapshotPair} {target covered : ℕ}

/-! ## The choice of a pair -/

/-- The two snapshots fit together and the pair ends at the slot. -/
def SnapshotPair.Fits (pair : SnapshotPair) (covered : ℕ) : Prop :=
  ∃ incremental, pair.incrementalSnapshot = some incremental ∧
    incremental.baseSlot = some pair.fullSnapshot.slot ∧ incremental.slot = covered

private theorem SnapshotPair.checkTargetSlot_incremental {incremental : SnapshotData}
    (has : pair.incrementalSnapshot = some incremental) (covers : pair.checkTargetSlot target = .ok true) :
    incremental.baseSlot = some pair.fullSnapshot.slot ∧ target ≤ incremental.slot := by
  rw [checkTargetSlot, has] at covers
  dsimp only at covers
  cases base : incremental.baseSlot with
  | none =>
    rw [base] at covers
    contradiction
  | some baseSlot =>
    rw [base] at covers
    change (if baseSlot ≠ pair.fullSnapshot.slot then _ else _) = Except.ok true at covers
    split at covers
    · contradiction
    · next same =>
      rw [not_not] at same
      exact ⟨congrArg some same, of_decide_eq_true (Except.ok.inj covers)⟩

/-- An answer is only taken with a pair that fits together and covers the target. -/
theorem getSnapshotData_fits {offers : List Offer}
    (found : getSnapshotData (some target) true offers = .ok (some pair)) :
    ∃ incremental, pair.incrementalSnapshot = some incremental ∧
      incremental.baseSlot = some pair.fullSnapshot.slot ∧ target ≤ incremental.slot := by
  induction offers with
  | nil => cases found
  | cons offer rest ih =>
    rw [getSnapshotData] at found
    cases parsed : SnapshotPair.parse offer with
    | error failure =>
      rw [parsed] at found
      contradiction
    | ok offered =>
      rw [parsed] at found
      change (offered.checkTargetSlot target >>= _) = _ at found
      cases checked : offered.checkTargetSlot target with
      | error failure =>
        rw [checked] at found
        contradiction
      | ok isCovered =>
        rw [checked] at found
        change (if _ then _ else _) = _ at found
        split at found
        · next taken =>
          cases found
          rw [Bool.and_eq_true, Bool.not_true, Bool.false_or] at taken
          obtain ⟨incremental, has⟩ := Option.isSome_iff_exists.mp taken.2
          exact ⟨incremental, has, SnapshotPair.checkTargetSlot_incremental has (checked.trans (congrArg _ taken.1))⟩
        · exact ih found

/-! ## One update -/

/-- What an update does to the checker: nothing; the first block sets the target; or a finalized slot past the target
starts the buffering, and stops the loop when it reaches the covered slot. -/
inductive Noted (config : HashCheckerConfig) (state : HashCheckerState) :
    SubscribeUpdate → HashCheckerState → Prop
  | nothing {update : SubscribeUpdate}
    (below : ∀ slot, update = .slotUpdate slot .finalized → state.targetSlot = 0 ∨ slot < state.targetSlot)
    (noTarget : update.isBlock = true → state.targetSlot ≠ 0 ∨ config.timeLimit = none) :
    Noted config state update state
  | target {slot target : ℕ} (unset : state.targetSlot = 0) (limited : config.timeLimit ≠ none)
    (positive : 0 < target) :
    Noted config state (.block slot) { state with targetSlot := target }
  | buffers {slot : ℕ} (isSet : state.targetSlot ≠ 0) (reached : state.targetSlot ≤ slot) :
    Noted config state (.slotUpdate slot .finalized)
      { state with
        buffering := true
        grpcCancel := state.grpcCancel || (decide (state.coveredSlot ≠ 0) && decide (state.coveredSlot ≤ slot)) }

private theorem noteUpdate_noted {state : HashCheckerState} {update : SubscribeUpdate}
    (allowed : (HashCheckEvent.update update).Allowed) :
    Noted config state update (state.noteUpdate config update) := by
  cases update with
  | block slot =>
    rw [HashCheckerState.noteUpdate, HashCheckerState.setTargetFromFirstBlock]
    split
    · next isSet => exact .nothing (fun _ same => SubscribeUpdate.noConfusion same) fun _ => Or.inl isSet
    · next unset =>
      split
      · next noLimit => exact .nothing (fun _ same => SubscribeUpdate.noConfusion same) fun _ => Or.inr noLimit
      · next limited =>
        refine .target (not_not.mp unset) ?_ (Nat.add_pos_left allowed _)
        rw [limited]
        exact Option.some_ne_none _
  | slotUpdate slot status =>
    cases status with
    | finalized =>
      rw [HashCheckerState.noteUpdate, HashCheckerState.onFinalizedSlot]
      split
      · next before =>
        refine .nothing (fun other same => ?_) fun isBlock => Bool.noConfusion isBlock
        cases same
        exact before
      · next past =>
        rw [not_or, not_lt] at past
        exact .buffers past.1 past.2
    | processed =>
      refine .nothing (fun _ same => ?_) fun isBlock => Bool.noConfusion isBlock
      cases same
    | confirmed =>
      refine .nothing (fun _ same => ?_) fun isBlock => Bool.noConfusion isBlock
      cases same
    | other =>
      refine .nothing (fun _ same => ?_) fun isBlock => Bool.noConfusion isBlock
      cases same
  | other => exact .nothing (fun _ same => SubscribeUpdate.noConfusion same) fun isBlock => Bool.noConfusion isBlock

/-- What an update leaves as it is. -/
theorem Noted.frame {state noted : HashCheckerState} {update : SubscribeUpdate}
    (notes : Noted config state update noted) :
    noted.coveredSlot = state.coveredSlot ∧ noted.buffer = state.buffer ∧ noted.snapshotFiles = state.snapshotFiles ∧
      (noted.buffering = false → state.buffering = false) := by
  cases notes with
  | nothing => exact ⟨rfl, rfl, rfl, id⟩
  | target => exact ⟨rfl, rfl, rfl, id⟩
  | buffers => exact ⟨rfl, rfl, rfl, fun other => Bool.noConfusion other⟩

private theorem mem_takeWhile_append {update : SubscribeUpdate} {received more : List SubscribeUpdate}
    (member : update ∈ received.takeWhile fun update => !update.isBlock) :
    update ∈ (received ++ more).takeWhile fun update => !update.isBlock := by
  rw [List.takeWhile_append]
  split
  · exact List.mem_append_left _ ((List.takeWhile_sublist _).subset member)
  · exact member

/-! ## A run of the checker -/

def CheckPhase.hasReplayed : CheckPhase → Bool
  | .replayed => true
  | .compared _ => true
  | _ => false

namespace HashCheck

variable {check next : HashCheck} {event : HashCheckEvent} {events : List HashCheckEvent}

structure Sound (config : HashCheckerConfig) (check : HashCheck) : Prop where
  whole : check.phase = .mainLoop ∨ check.phase = .loopFinished →
    check.processed ++ check.state.buffer = check.received
  replayed : check.phase.hasReplayed = true → check.state.coveredSlot ≠ 0 ∧ ∃ early late,
    check.received = early ++ late ∧
      check.processed = early ++ late.filter fun update => !update.over check.state.coveredSlot
  unbuffered : check.state.buffering = false → check.state.buffer = []
  targeted : check.state.buffering = true → check.state.targetSlot ≠ 0
  waiting : check.orchestrator = .waiting → check.state.coveredSlot = 0 ∧ check.state.snapshotFiles = none
  covers : check.state.coveredSlot ≠ 0 → check.state.buffering = true ∧
    check.state.targetSlot ≤ check.state.coveredSlot
  fits : ∀ pair, check.orchestrator = .downloading pair ∨ check.state.snapshotFiles = some pair ∨
    check.phase = .compared pair → pair.Fits check.state.coveredSlot
  noBlock : check.state.targetSlot = 0 → config.timeLimit ≠ none → ∀ update ∈ check.received, update.isBlock = false
  finalized : check.state.targetSlot ≠ 0 → ∀ slot, .slotUpdate slot .finalized ∈ check.processed →
    slot < check.state.targetSlot ∨ slot ≤ check.state.coveredSlot ∨
      .slotUpdate slot .finalized ∈ check.received.takeWhile fun update => !update.isBlock
  stopped : check.state.grpcCancel = true → check.state.coveredSlot ≠ 0 ∧ ∃ slot, check.state.coveredSlot ≤ slot ∧
    .slotUpdate slot .finalized ∈ check.received

theorem Sound.start : (new config).Sound config where
  whole := fun _ => rfl
  replayed := fun hasReplayed => Bool.noConfusion hasReplayed
  unbuffered := fun _ => rfl
  targeted := fun buffering => Bool.noConfusion buffering
  waiting := fun _ => ⟨rfl, rfl⟩
  covers := fun hasCovered => absurd rfl hasCovered
  fits := by
    rintro pair (downloading | hasFiles | compared)
    · contradiction
    · contradiction
    · contradiction
  noBlock := fun _ _ _ member => absurd member List.not_mem_nil
  finalized := fun _ _ member => absurd member List.not_mem_nil
  stopped := fun cancelled => Bool.noConfusion cancelled

/-- The target, the buffering and the updates received after an update. -/
theorem Sound.noted (sound : check.Sound config) {update : SubscribeUpdate} {noted : HashCheckerState}
    (notes : Noted config check.state update noted) :
    (noted.buffering = true → noted.targetSlot ≠ 0) ∧
    (noted.coveredSlot ≠ 0 → noted.buffering = true ∧ noted.targetSlot ≤ noted.coveredSlot) ∧
    (noted.targetSlot = 0 → config.timeLimit ≠ none → ∀ earlier ∈ check.received ++ [update], earlier.isBlock = false) ∧
    (noted.grpcCancel = true → noted.coveredSlot ≠ 0 ∧ ∃ slot, noted.coveredSlot ≤ slot ∧
      .slotUpdate slot .finalized ∈ check.received ++ [update]) := by
  have stopped : check.state.grpcCancel = true → check.state.coveredSlot ≠ 0 ∧ ∃ slot, check.state.coveredSlot ≤ slot ∧
      .slotUpdate slot .finalized ∈ check.received ++ [update] := by
    intro cancelled
    obtain ⟨hasCovered, slot, reached, member⟩ := sound.stopped cancelled
    exact ⟨hasCovered, slot, reached, List.mem_append_left _ member⟩
  cases notes with
  | nothing below noTarget =>
    refine ⟨sound.targeted, sound.covers, fun unset limited earlier member => ?_, stopped⟩
    rcases List.mem_append.mp member with old | isNew
    · exact sound.noBlock unset limited earlier old
    · rw [List.mem_singleton.mp isNew, Bool.eq_false_iff]
      intro isBlock
      rcases noTarget isBlock with isSet | noLimit
      · exact isSet unset
      · exact limited noLimit
  | target unset _ positive =>
    refine ⟨fun _ => positive.ne', fun hasCovered => ?_, fun stillUnset => absurd stillUnset positive.ne', stopped⟩
    exact absurd unset (sound.targeted (sound.covers hasCovered).1)
  | @buffers slot isSet reached =>
    refine ⟨fun _ => isSet, fun hasCovered => ⟨rfl, (sound.covers hasCovered).2⟩, fun unset => absurd unset isSet, ?_⟩
    intro cancelled
    rw [Bool.or_eq_true, Bool.and_eq_true, decide_eq_true_iff, decide_eq_true_iff] at cancelled
    rcases cancelled with before | ⟨hasCovered, past⟩
    · exact stopped before
    · exact ⟨hasCovered, slot, past, List.mem_append_right _ (List.mem_singleton.mpr rfl)⟩

/-- A finalized slot is processed below the target, or before there was one. -/
theorem Sound.noted_finalized (sound : check.Sound config) (inLoop : check.phase = .mainLoop) {update : SubscribeUpdate}
    {noted : HashCheckerState} (notes : Noted config check.state update noted) (isSet : noted.targetSlot ≠ 0) {slot : ℕ}
    (member : .slotUpdate slot .finalized ∈ check.processed ∨
      noted.buffering = false ∧ update = .slotUpdate slot .finalized) :
    slot < noted.targetSlot ∨ slot ≤ noted.coveredSlot ∨
      .slotUpdate slot .finalized ∈ (check.received ++ [update]).takeWhile fun update => !update.isBlock := by
  cases notes with
  | nothing below _ =>
    rcases member with old | ⟨-, isNew⟩
    · exact (sound.finalized isSet slot old).imp_right (Or.imp_right mem_takeWhile_append)
    · exact Or.inl ((below slot isNew).resolve_left isSet)
  | target unset limited _ =>
    rcases member with old | ⟨-, isNew⟩
    · have inReceived : .slotUpdate slot .finalized ∈ check.received :=
        sound.whole (Or.inl inLoop) ▸ List.mem_append_left _ old
      have noBlock : ∀ update ∈ check.received, (!update.isBlock) = true := fun update among => by
        rw [sound.noBlock unset limited update among, Bool.not_false]
      rw [List.takeWhile_append_of_pos noBlock]
      exact Or.inr (Or.inr (List.mem_append_left _ inReceived))
    · cases isNew
  | buffers =>
    rcases member with old | ⟨idle, -⟩
    · exact (sound.finalized isSet slot old).imp_right (Or.imp_right mem_takeWhile_append)
    · exact Bool.noConfusion idle

theorem not_hasReplayed {phase : CheckPhase} (goesOn : phase = .mainLoop ∨ phase = .loopFinished) :
    ¬phase.hasReplayed = true := by
  rcases goesOn with rfl | rfl
  · exact Bool.false_ne_true
  · exact Bool.false_ne_true

/-- An update leaves the pair of the orchestrator. -/
theorem Sound.noted_pair (sound : check.Sound config) {update : SubscribeUpdate} {noted : HashCheckerState}
    (notes : Noted config check.state update noted) {phase : CheckPhase}
    (goesOn : phase = .mainLoop ∨ phase = .loopFinished) :
    (check.orchestrator = .waiting → noted.coveredSlot = 0 ∧ noted.snapshotFiles = none) ∧
    ∀ pair, check.orchestrator = .downloading pair ∨ noted.snapshotFiles = some pair ∨ phase = .compared pair →
      pair.Fits noted.coveredSlot := by
  obtain ⟨sameCovered, -, sameFiles, -⟩ := notes.frame
  rw [sameCovered, sameFiles]
  refine ⟨sound.waiting, fun pair place => ?_⟩
  rcases place with downloading | hasFiles | compared
  · exact sound.fits pair (Or.inl downloading)
  · exact sound.fits pair (Or.inr (Or.inl hasFiles))
  · exact absurd (by rw [compared]; rfl) (not_hasReplayed goesOn)

/-- An update that is buffered. -/
theorem Sound.push (sound : check.Sound config) (inLoop : check.phase = .mainLoop) {update : SubscribeUpdate}
    {noted : HashCheckerState} (notes : Noted config check.state update noted) (buffering : noted.buffering = true)
    {phase : CheckPhase} (goesOn : phase = .mainLoop ∨ phase = .loopFinished) :
    Sound config { check with state := noted.push update, phase, received := check.received ++ [update] } := by
  obtain ⟨-, sameBuffer, -, -⟩ := notes.frame
  obtain ⟨targeted, covers, noBlock, stopped⟩ := sound.noted notes
  obtain ⟨waiting, fits⟩ := sound.noted_pair notes goesOn
  refine ⟨fun _ => ?_, fun hasReplayed => absurd hasReplayed (not_hasReplayed goesOn), fun idle => ?_, targeted,
    waiting, covers, fits, noBlock, ?_, stopped⟩
  · change check.processed ++ (noted.buffer ++ [update]) = check.received ++ [update]
    rw [sameBuffer, ← List.append_assoc, sound.whole (Or.inl inLoop)]
  · exact absurd buffering (by rw [show noted.buffering = false from idle]; decide)
  · exact fun isSet slot member => sound.noted_finalized inLoop notes isSet (Or.inl member)

/-- An update that is processed at once. -/
theorem Sound.process (sound : check.Sound config) (inLoop : check.phase = .mainLoop) {update : SubscribeUpdate}
    {noted : HashCheckerState} (notes : Noted config check.state update noted) (idle : noted.buffering = false)
    {phase : CheckPhase} (goesOn : phase = .mainLoop ∨ phase = .loopFinished) :
    Sound config
      { check with
        state := noted, phase, received := check.received ++ [update], processed := check.processed ++ [update] } := by
  obtain ⟨-, sameBuffer, -, stillIdle⟩ := notes.frame
  obtain ⟨targeted, covers, noBlock, stopped⟩ := sound.noted notes
  have empty := sound.unbuffered (stillIdle idle)
  obtain ⟨waiting, fits⟩ := sound.noted_pair notes goesOn
  refine ⟨fun _ => ?_, fun hasReplayed => absurd hasReplayed (not_hasReplayed goesOn), fun _ => ?_, targeted, waiting,
    covers, fits, noBlock, ?_, stopped⟩
  · have whole := sound.whole (Or.inl inLoop)
    rw [empty, List.append_nil] at whole
    change check.processed ++ [update] ++ noted.buffer = check.received ++ [update]
    rw [sameBuffer, empty, List.append_nil, whole]
  · exact sameBuffer.trans empty
  · intro isSet slot member
    rcases List.mem_append.mp member with old | isNew
    · exact sound.noted_finalized inLoop notes isSet (Or.inl old)
    · exact sound.noted_finalized inLoop notes isSet (Or.inr ⟨idle, (List.mem_singleton.mp isNew).symm⟩)

theorem Sound.receive (sound : check.Sound config) (inLoop : check.phase = .mainLoop) {update : SubscribeUpdate}
    (allowed : (HashCheckEvent.update update).Allowed) : (check.receive config update).Sound config := by
  have notes : Noted config check.state update (check.state.noteUpdate config update) := noteUpdate_noted allowed
  have goesOn : (if (check.state.noteUpdate config update).grpcCancel then CheckPhase.loopFinished else .mainLoop) =
      .mainLoop ∨ (if (check.state.noteUpdate config update).grpcCancel then CheckPhase.loopFinished else .mainLoop) =
      .loopFinished := by
    split
    · exact Or.inr rfl
    · exact Or.inl rfl
  rw [HashCheck.receive]
  split
  · next buffering => exact sound.push inLoop notes buffering goesOn
  · next idle => exact sound.process inLoop notes (Bool.not_eq_true _ ▸ idle) goesOn

theorem Sound.exit (sound : check.Sound config) : Sound config { check with phase := .exited } where
  whole := by
    rintro (inLoop | finished)
    · contradiction
    · contradiction
  replayed := fun hasReplayed => Bool.noConfusion hasReplayed
  unbuffered := sound.unbuffered
  targeted := sound.targeted
  waiting := sound.waiting
  covers := sound.covers
  fits := by
    rintro pair (downloading | hasFiles | compared)
    · exact sound.fits pair (Or.inl downloading)
    · exact sound.fits pair (Or.inr (Or.inl hasFiles))
    · contradiction
  noBlock := sound.noBlock
  finalized := sound.finalized
  stopped := sound.stopped

theorem Sound.takeOffers (sound : check.Sound config) (waiting : check.orchestrator = .waiting)
    (buffering : check.state.buffering = true) {offers : List Offer} : (check.takeOffers offers).Sound config := by
  obtain ⟨uncovered, noFiles⟩ := sound.waiting waiting
  rw [HashCheck.takeOffers]
  split
  · exact sound.exit
  · exact sound
  · next pair found =>
    obtain ⟨incremental, has, fitsBase, reached⟩ := getSnapshotData_fits found
    rw [has]
    refine ⟨sound.whole, fun hasReplayed => absurd uncovered (sound.replayed hasReplayed).1, sound.unbuffered,
      sound.targeted, fun other => OrchestratorPhase.noConfusion other, fun _ => ⟨buffering, reached⟩, ?_,
      sound.noBlock, ?_, fun cancelled => absurd uncovered (sound.stopped cancelled).1⟩
    · rintro other (downloading | hasFiles | compared)
      · cases downloading
        exact ⟨incremental, has, fitsBase, rfl⟩
      · cases noFiles.symm.trans hasFiles
      · have hasReplayed : check.phase.hasReplayed = true := by
          rw [show check.phase = .compared other from compared]
          rfl
        exact absurd uncovered (sound.replayed hasReplayed).1
    · intro isSet slot member
      rcases sound.finalized isSet slot member with below | covered | early
      · exact Or.inl below
      · rw [uncovered] at covered
        exact Or.inr (Or.inl (covered.trans (Nat.zero_le _)))
      · exact Or.inr (Or.inr early)

theorem Sound.replay (sound : check.Sound config) (finished : check.phase = .loopFinished) :
    check.replay.Sound config := by
  rw [HashCheck.replay]
  dsimp only
  split
  · exact sound.exit
  · next hasCovered =>
    refine ⟨?_, fun _ => ⟨hasCovered, check.processed, check.state.buffer, ?_, rfl⟩, fun _ => rfl, sound.targeted,
      sound.waiting, sound.covers, ?_, sound.noBlock, ?_, sound.stopped⟩
    · rintro (inLoop | finished)
      · contradiction
      · contradiction
    · exact (sound.whole (Or.inr finished)).symm
    · rintro pair (downloading | hasFiles | compared)
      · exact sound.fits pair (Or.inl downloading)
      · exact sound.fits pair (Or.inr (Or.inl hasFiles))
      · contradiction
    · intro isSet slot member
      rcases List.mem_append.mp member with old | replayed
      · exact sound.finalized isSet slot old
      · have upTo := (List.mem_filter.mp replayed).2
        rw [SubscribeUpdate.over, Bool.not_eq_true', decide_eq_false_iff_not, not_lt] at upTo
        exact Or.inr (Or.inl upTo)

theorem Sound.step (sound : check.Sound config) (allowed : event.Allowed)
    (moves : check.step config event = some next) : next.Sound config := by
  cases event with
  | update update =>
    rw [HashCheck.step, Option.ite_none_right_eq_some] at moves
    obtain ⟨inLoop, moved⟩ := moves
    cases moved
    exact sound.receive inLoop allowed
  | channelClosed =>
    rw [HashCheck.step, Option.ite_none_right_eq_some] at moves
    obtain ⟨inLoop, moved⟩ := moves
    cases moved
    refine ⟨fun _ => sound.whole (Or.inl inLoop), fun hasReplayed => Bool.noConfusion hasReplayed, sound.unbuffered,
      sound.targeted, sound.waiting, sound.covers, ?_, sound.noBlock, sound.finalized, sound.stopped⟩
    rintro pair (downloading | hasFiles | compared)
    · exact sound.fits pair (Or.inl downloading)
    · exact sound.fits pair (Or.inr (Or.inl hasFiles))
    · contradiction
  | offers offers =>
    rw [HashCheck.step, Option.ite_none_right_eq_some] at moves
    obtain ⟨⟨-, waiting, buffering⟩, moved⟩ := moves
    cases moved
    exact sound.takeOffers waiting buffering
  | downloaded succeeds =>
    rw [HashCheck.step] at moves
    split at moves
    · next pair downloading =>
      rw [Option.ite_none_left_eq_some] at moves
      obtain ⟨-, moved⟩ := moves
      split at moved
      · cases moved
        refine ⟨sound.whole, sound.replayed, sound.unbuffered, sound.targeted,
          fun other => OrchestratorPhase.noConfusion other, sound.covers, ?_, sound.noBlock, sound.finalized,
          sound.stopped⟩
        rintro other (stillDownloading | hasFiles | compared)
        · contradiction
        · cases hasFiles
          exact sound.fits _ (Or.inl downloading)
        · exact sound.fits other (Or.inr (Or.inr compared))
      · cases moved
        exact sound.exit
    · contradiction
  | replay =>
    rw [HashCheck.step, Option.ite_none_right_eq_some] at moves
    obtain ⟨finished, moved⟩ := moves
    cases moved
    exact sound.replay finished
  | compare =>
    rw [HashCheck.step, Option.ite_none_right_eq_some] at moves
    obtain ⟨hasReplayed, moved⟩ := moves
    obtain ⟨pair, hasFiles, rfl⟩ := Option.map_eq_some_iff.mp moved
    refine ⟨?_, fun _ => sound.replayed (by rw [hasReplayed]; rfl), sound.unbuffered, sound.targeted,
      fun waiting => ⟨(sound.waiting waiting).1, rfl⟩, sound.covers, ?_, sound.noBlock, sound.finalized, sound.stopped⟩
    · rintro (inLoop | finished)
      · contradiction
      · contradiction
    · rintro other (downloading | stillHas | compared)
      · exact sound.fits other (Or.inl downloading)
      · contradiction
      · cases compared
        exact sound.fits pair (Or.inr (Or.inl hasFiles))

/-- The comparison is with snapshots that fit together and end at the covered slot, which is past the target. Every
update received has been processed once and in order, but for updates past the covered slot that were buffered. No slot
past the covered one has been finalized, except before the first block. The checker itself stops the loop only once the
covered slot was finalized. -/
theorem compared_at_the_covered_slot
    (run : Run (new config) (step config) (fun _ _ event => event.Allowed) events check)
    (compared : check.phase = .compared pair) :
    (pair.Fits check.state.coveredSlot ∧ check.state.targetSlot ≤ check.state.coveredSlot) ∧
    (∃ early late, check.received = early ++ late ∧
      check.processed = early ++ late.filter fun update => !update.over check.state.coveredSlot) ∧
    (∀ slot, .slotUpdate slot .finalized ∈ check.processed → slot ≤ check.state.coveredSlot ∨
      .slotUpdate slot .finalized ∈ check.received.takeWhile fun update => !update.isBlock) ∧
    (check.state.grpcCancel = true → ∃ slot, check.state.coveredSlot ≤ slot ∧
      .slotUpdate slot .finalized ∈ check.received) := by
  have sound : check.Sound config := by
    refine run.stateInvariant .start ?_
    intro _ _ _ _ sound allowed moves
    exact sound.step allowed moves
  obtain ⟨hasCovered, whole⟩ := sound.replayed (by rw [compared]; rfl)
  obtain ⟨buffering, reached⟩ := sound.covers hasCovered
  refine ⟨⟨sound.fits pair (Or.inr (Or.inr compared)), reached⟩, whole, fun slot member => ?_,
    fun cancelled => (sound.stopped cancelled).2⟩
  rcases sound.finalized (sound.targeted buffering) slot member with below | upTo | early
  · exact Or.inl (below.le.trans reached)
  · exact Or.inl upTo
  · exact Or.inr early

private def twoSlots : HashCheckerConfig := ⟨some 800, none⟩

private def fullTen : OfferedFile := ⟨some "snapshot-10.tar.zst", some 10, none, none⟩

private def incrementalFile (name : String) (slot : ℕ) : OfferedFile := ⟨some name, some slot, some 10, none⟩

/-- The first offer does not reach the target. -/
private def twoOffers : List Offer :=
  [⟨some 11, some 10, some "sidecar", some [incrementalFile "incremental-11" 11, fullTen]⟩,
    ⟨some 13, some 10, some "sidecar", some [incrementalFile "incremental-13" 13, fullTen]⟩]

private def pairThirteen : SnapshotPair :=
  ⟨⟨"snapshot-10.tar.zst", none, 10, .full, none⟩, some ⟨"incremental-13", some 10, 13, .incremental, none⟩, "sidecar"⟩

/-- Block 14 is past the covered slot when it is buffered. -/
private def toThirteen : List HashCheckEvent :=
  [.update (.slotUpdate 9 .finalized), .update (.block 10), .update (.slotUpdate 11 .finalized), .update (.block 13),
    .update (.slotUpdate 12 .finalized), .offers twoOffers, .update (.block 14), .update (.slotUpdate 13 .finalized),
    .replay, .downloaded true, .compare]

theorem compared_at_slot_thirteen : ∃ check : HashCheck,
    Run (new twoSlots) (step twoSlots) (fun _ _ event => event.Allowed) toThirteen check ∧
      pairThirteen.Fits check.state.coveredSlot ∧
      check.processed = [.slotUpdate 9 .finalized, .block 10, .slotUpdate 11 .finalized, .block 13,
        .slotUpdate 12 .finalized, .slotUpdate 13 .finalized] := by
  have replays : (Run.replay (step twoSlots) (fun _ _ event => event.Allowed) [] (new twoSlots) toThirteen).any
      (fun check => decide (check.phase = .compared pairThirteen) && decide (check.processed =
        [.slotUpdate 9 .finalized, .block 10, .slotUpdate 11 .finalized, .block 13, .slotUpdate 12 .finalized,
          .slotUpdate 13 .finalized])) = true := by
    decide +kernel
  obtain ⟨check, ran, ended⟩ := Option.any_eq_true _ _ |>.mp replays
  rw [Bool.and_eq_true, decide_eq_true_iff, decide_eq_true_iff] at ended
  have run := Run.replayed ran
  exact ⟨check, run, (compared_at_the_covered_slot run ended.1).1.1, ended.2⟩

end HashCheck

end Cloudbreak.Model.Snapshot
