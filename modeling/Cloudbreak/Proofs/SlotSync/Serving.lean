import Cloudbreak.Model.SlotSync.Serving
import Cloudbreak.Proofs.SlotSync.Published

/-! # A published slot is complete and stays as it is

A slot is published after the table has it, and the table has it after the chunk statements of the block have ended.
Blocks come in order, so nothing is ever written at or below a published slot again.
-/

namespace Cloudbreak.Model.SlotSync

open Cloudbreak.ToMathlib

namespace Serving

variable {Row : Type*} {config : SyncConfig} {serving next : Serving Row} {event : ServingEvent Row}

/-- The slots follow the table, the block under way is above the confirmed slot, and every row of a block is in the
table, in a statement that failed or in a statement of the block under way. -/
structure Keeps (config : SyncConfig) (serving : Serving Row) : Prop where
  follows : serving.feed.Follows config
  above : ∀ saving, serving.saving = some saving →
    ∀ row, serving.feed.db.slots .confirmed = some row → row.slot < saving.block.slot
  written : ∀ block ∈ serving.blocks, ∀ row ∈ block.chunks.flatten,
    (block.slot, row) ∈ serving.accounts ∨ (block.slot, row) ∈ serving.failed ∨
      ∃ saving, serving.saving = some saving ∧ saving.block.slot = block.slot ∧ row ∈ saving.chunks.flatten

/-- A published slot is at most the table's. -/
theorem Keeps.published_le (keeps : serving.Keeps config)
    (published : 0 < serving.feed.sync.data.getSlotForCommitment .confirmed) :
    ∃ row, serving.feed.db.slots .confirmed = some row ∧
      serving.feed.sync.data.getSlotForCommitment .confirmed ≤ row.slot := by
  have stored : Health.CommitmentLevel.confirmed ≠ .processed := by decide
  obtain ⟨row, found⟩ := keeps.follows.exists_row stored published
  exact ⟨row, found, keeps.follows.slot_le stored found⟩

/-- A change that is no confirmed insert leaves the confirmed slot. -/
theorem confirmed_feed_step {feed after : SlotFeed} {event : SlotEvent}
    (finalized : ∀ insert, event = .insertSlot insert → insert.commitment = .finalized)
    (moves : feed.step config event = some after) :
    (after.db.slots .confirmed).map Health.SlotRow.slot = (feed.db.slots .confirmed).map Health.SlotRow.slot := by
  cases event with
  | insertSlot insert =>
    cases moves
    have apart : Health.CommitmentLevel.confirmed ≠ insert.commitment := by
      rw [finalized insert rfl]
      decide
    exact congrArg (Option.map Health.SlotRow.slot) (insertSlot_of_ne feed.db insert apart)
  | updateServiceHealth healthy order =>
    cases moves
    by_cases found : Health.CommitmentLevel.confirmed ∈ order
    · exact (congrArg _ (updateServiceHealth_of_mem feed.db healthy found)).trans (Option.map_map ..)
    · exact congrArg _ (updateServiceHealth_of_not_mem feed.db healthy found)
  | receive =>
    rw [SlotFeed.step] at moves
    split at moves
    · contradiction
    · obtain ⟨sync, -, rfl⟩ := Option.map_eq_some_iff.mp moves
      rfl

/-- The confirmed slot of the table, 0 without a row. -/
def confirmedSlot (serving : Serving Row) : ℕ :=
  ((serving.feed.db.slots .confirmed).map Health.SlotRow.slot).getD 0

theorem Keeps.above_confirmed (keeps : serving.Keeps config) {saving : Saving Row}
    (isSaving : serving.saving = some saving) (positive : 0 < serving.confirmedSlot) :
    serving.confirmedSlot < saving.block.slot := by
  rw [confirmedSlot] at positive ⊢
  cases found : serving.feed.db.slots .confirmed with
  | none =>
    rw [found] at positive
    exact absurd positive (Nat.lt_irrefl 0)
  | some row => exact keeps.above saving isSaving row found

theorem Keeps.start {feed : SlotFeed} (follows : feed.Follows config) (accounts : List (ℕ × Row)) :
    Keeps config ⟨feed, accounts, [], none, []⟩ where
  follows := follows
  above := fun _ isSaving => absurd isSaving (Option.some_ne_none _).symm
  written := fun _ member => absurd member List.not_mem_nil

/-- One step: the invariant stays, the confirmed slot does not fall, and the rows that appear are those of the block
under way. -/
structure Advances (config : SyncConfig) (serving next : Serving Row) : Prop where
  keeps : next.Keeps config
  confirmed : serving.confirmedSlot ≤ next.confirmedSlot
  accounts : ∃ more, next.accounts = serving.accounts ++ more ∧
    ∀ row ∈ more, ∃ saving, serving.saving = some saving ∧ row.1 = saving.block.slot

/-- No row appears. -/
private theorem unchanged (serving : Serving Row) : ∃ more, serving.accounts = serving.accounts ++ more ∧
    ∀ row ∈ more, ∃ saving, serving.saving = some saving ∧ row.1 = saving.block.slot :=
  ⟨[], (List.append_nil _).symm, fun _ member => absurd member List.not_mem_nil⟩

private theorem Keeps.saveBlock (keeps : serving.Keeps config) {block : BlockChunks Row}
    (allowed : ServingEvent.Allowed serving (.saveBlock block))
    (moves : serving.step config (.saveBlock block) = some next) : Advances config serving next := by
  rw [Serving.step, Option.ite_none_left_eq_some] at moves
  obtain ⟨idle, moved⟩ := moves
  cases moved
  rw [Option.not_isSome_iff_eq_none] at idle
  refine ⟨⟨keeps.follows, ?_, ?_⟩, Nat.le_refl _, serving.unchanged⟩
  · rintro saving isSaving row found
    cases isSaving
    exact allowed row found
  · intro other member row inOther
    rcases List.mem_append.mp member with old | isNew
    · rcases keeps.written other old row inOther with written | failed | ⟨saving, isSaving, -⟩
      · exact Or.inl written
      · exact Or.inr (Or.inl failed)
      · rw [idle] at isSaving
        contradiction
    · cases List.mem_singleton.mp isNew
      exact Or.inr (Or.inr ⟨_, rfl, rfl, inOther⟩)

/-- The rows of the block under way whose statement ran are stored or lost, and the others wait. -/
private theorem Keeps.insertChunk (keeps : serving.Keeps config) {position : ℕ} {succeeds : Bool}
    (moves : serving.step config (.insertChunk position succeeds) = some next) : Advances config serving next := by
  obtain ⟨saving, isSaving, moves⟩ := Option.bind_eq_some_iff.mp moves
  obtain ⟨chunk, found, rfl⟩ := Option.map_eq_some_iff.mp moves
  refine ⟨⟨keeps.follows, ?_, ?_⟩, Nat.le_refl _, _, rfl, ?_⟩
  · rintro other isOther row inTable
    cases isOther
    exact keeps.above saving isSaving row inTable
  · intro block member row inBlock
    rcases keeps.written block member row inBlock with written | failed | ⟨other, isOther, same, waiting⟩
    · exact Or.inl (List.mem_append_left _ written)
    · exact Or.inr (Or.inl (List.mem_append_left _ failed))
    · cases isSaving.symm.trans isOther
      obtain ⟨rows, among, inRows⟩ := List.mem_flatten.mp waiting
      obtain ⟨index, isRows⟩ := List.mem_iff_getElem?.mp among
      by_cases here : index = position
      · subst here
        cases found.symm.trans isRows
        have inStatement : (block.slot, row) ∈ chunk.map fun row => (saving.block.slot, row) :=
          List.mem_map.mpr ⟨row, inRows, by rw [same]⟩
        cases succeeds with
        | true => exact Or.inl (List.mem_append_right _ inStatement)
        | false => exact Or.inr (Or.inl (List.mem_append_right _ inStatement))
      · refine Or.inr (Or.inr ⟨_, rfl, same, List.mem_flatten.mpr ⟨rows, ?_, inRows⟩⟩)
        exact List.mem_eraseIdx_iff_getElem?.mpr ⟨index, here, isRows⟩
  · rintro row appeared
    cases succeeds with
    | false => exact absurd appeared List.not_mem_nil
    | true =>
      obtain ⟨item, -, rfl⟩ := List.mem_map.mp appeared
      exact ⟨saving, isSaving, rfl⟩

/-- Once no statement waits, every row of a saved block is stored or lost. -/
private theorem Keeps.written_of_done (keeps : serving.Keeps config) {saving : Saving Row}
    (isSaving : serving.saving = some saving) (done : saving.chunks = []) :
    ∀ block ∈ serving.blocks, ∀ row ∈ block.chunks.flatten,
      (block.slot, row) ∈ serving.accounts ∨ (block.slot, row) ∈ serving.failed := by
  intro block member row inBlock
  rcases keeps.written block member row inBlock with written | failed | ⟨other, isOther, -, waiting⟩
  · exact Or.inl written
  · exact Or.inr failed
  · cases isSaving.symm.trans isOther
    rw [done] at waiting
    exact absurd waiting List.not_mem_nil

private theorem Keeps.insertSlot (keeps : serving.Keeps config) {healthy succeeds : Bool}
    (moves : serving.step config (.insertSlot healthy succeeds) = some next) : Advances config serving next := by
  obtain ⟨saving, isSaving, moves⟩ := Option.bind_eq_some_iff.mp moves
  rw [Option.ite_none_left_eq_some] at moves
  obtain ⟨done, moves⟩ := moves
  have ended := keeps.written_of_done isSaving (not_not.mp done)
  cases succeeds with
  | false =>
    cases moves
    refine ⟨⟨keeps.follows, fun _ isSaving => absurd isSaving (Option.some_ne_none _).symm, ?_⟩, Nat.le_refl _,
      serving.unchanged⟩
    exact fun block member row inBlock => (ended block member row inBlock).imp_right Or.inl
  | true =>
    rw [Bool.not_true, if_neg Bool.false_ne_true] at moves
    obtain ⟨feed, inserted, rfl⟩ := Option.map_eq_some_iff.mp moves
    have allowedInsert : SlotEvent.Allowed serving.feed (.insertSlot ⟨saving.block.slot, saving.block.blockTime,
        some saving.block.blockhash, .confirmed, healthy⟩) :=
      ⟨(by decide : Health.CommitmentLevel.confirmed ≠ .processed), fun _ => rfl⟩
    have follows := keeps.follows.step allowedInsert inserted
    refine ⟨⟨follows, fun _ isSaving => absurd isSaving (Option.some_ne_none _).symm, ?_⟩, ?_, serving.unchanged⟩
    · exact fun block member row inBlock => (ended block member row inBlock).imp_right Or.inl
    · cases inserted
      rcases insertSlot_self serving.feed.db ⟨saving.block.slot, saving.block.blockTime, some saving.block.blockhash,
        .confirmed, healthy⟩ with ⟨same, -⟩ | ⟨health, written, lower⟩
      · exact (congrArg (fun row => (row.map Health.SlotRow.slot).getD 0) same).ge
      · rw [confirmedSlot, confirmedSlot]
        change _ ≤ (Option.map Health.SlotRow.slot ((serving.feed.db.insertSlot _).slots .confirmed)).getD 0
        rw [written]
        cases found : serving.feed.db.slots .confirmed with
        | none => exact Nat.zero_le _
        | some row => exact (lower row found).le

private theorem Keeps.feed (keeps : serving.Keeps config) {event : SlotEvent}
    (allowed : ServingEvent.Allowed serving (.feed event))
    (moves : serving.step config (.feed event) = some next) : Advances config serving next := by
  obtain ⟨feed, moved, rfl⟩ := Option.map_eq_some_iff.mp moves
  have same := confirmed_feed_step allowed.2 moved
  refine ⟨⟨keeps.follows.step allowed.1 moved, ?_, keeps.written⟩, ?_, serving.unchanged⟩
  · intro saving isSaving row found
    rw [found, Option.map_some] at same
    obtain ⟨old, wasOld, sameSlot⟩ := Option.map_eq_some_iff.mp same.symm
    exact sameSlot ▸ keeps.above saving isSaving old wasOld
  · exact (congrArg (fun slot => slot.getD 0) same).ge

theorem Keeps.step (keeps : serving.Keeps config) (allowed : event.Allowed serving)
    (moves : serving.step config event = some next) : Advances config serving next := by
  cases event with
  | saveBlock block => exact keeps.saveBlock allowed moves
  | insertChunk position succeeds => exact keeps.insertChunk moves
  | insertSlot healthy succeeds => exact keeps.insertSlot moves
  | feed event => exact keeps.feed allowed moves

/-- A step writes nothing at or below a slot that the table has reached. -/
theorem Advances.readAt (advances : Advances config serving next) (keeps : serving.Keeps config) {slot : ℕ}
    (positive : 0 < slot) (reached : slot ≤ serving.confirmedSlot) : next.readAt slot = serving.readAt slot := by
  obtain ⟨more, grown, fromBlock⟩ := advances.accounts
  rw [Serving.readAt, grown, List.filter_append]
  refine (congrArg _ (List.filter_eq_nil_iff.mpr fun row appeared => ?_)).trans (List.append_nil _)
  obtain ⟨saving, isSaving, same⟩ := fromBlock row appeared
  have above := keeps.above_confirmed isSaving (positive.trans_le reached)
  rw [decide_eq_true_iff, same]
  omega

/-- A request that picks the published slot reads every row of every block up to it, unless the statement of the row
failed, and reads the same rows however long it takes, while blocks are saved, health changes and slots are published
around it. -/
theorem published_slot_is_complete_and_stable {db : Health.Database} (inserted : Inserted db)
    {accounts : List (ℕ × Row)} {events later : List (ServingEvent Row)} {after : Serving Row}
    (run : Run ⟨.listen db, accounts, [], none, []⟩ (step config) (fun _ serving event => event.Allowed serving) events
      serving)
    (goesOn : Run serving (step config) (fun _ serving event => event.Allowed serving) later after) {slot : ℕ}
    (published : serving.feed.sync.data.getSlotForCommitment .confirmed = slot) (positive : 0 < slot) :
    (∀ block ∈ serving.blocks, block.slot ≤ slot → ∀ row ∈ block.chunks.flatten,
      (block.slot, row) ∈ serving.readAt slot ∨ (block.slot, row) ∈ serving.failed) ∧
        after.readAt slot = serving.readAt slot := by
  have keeps : serving.Keeps config := by
    refine run.stateInvariant (.start (SlotFeed.listen_follows inserted) accounts) ?_
    intro _ _ _ _ keeps allowed moves
    exact (keeps.step allowed moves).keeps
  subst published
  obtain ⟨tableRow, inTable, below⟩ := keeps.published_le positive
  have reached : serving.feed.sync.data.getSlotForCommitment .confirmed ≤ serving.confirmedSlot := by
    rwa [confirmedSlot, inTable]
  refine ⟨fun block member low row inBlock => ?_, ?_⟩
  · rcases keeps.written block member row inBlock with written | failed | ⟨saving, isSaving, same, -⟩
    · exact Or.inl (List.mem_filter.mpr ⟨written, decide_eq_true low⟩)
    · exact Or.inr failed
    · have above := keeps.above_confirmed isSaving (positive.trans_le reached)
      omega
  · have stays : after.Keeps config ∧ serving.feed.sync.data.getSlotForCommitment .confirmed ≤ after.confirmedSlot ∧
        after.readAt (serving.feed.sync.data.getSlotForCommitment .confirmed) =
          serving.readAt (serving.feed.sync.data.getSlotForCommitment .confirmed) := by
      refine goesOn.stateInvariant ⟨keeps, reached, rfl⟩ ?_
      rintro _ state event next ⟨keepsNow, reachedNow, sameNow⟩ allowed moves
      have advances := keepsNow.step allowed moves
      exact ⟨advances.keeps, reachedNow.trans advances.confirmed,
        (advances.readAt keepsNow positive reachedNow).trans sameNow⟩
    exact stays.2.2

private def emptyTable : Health.Database := ⟨true, fun _ => none⟩

private def syncOnly : SyncConfig := ⟨false, false⟩

/-- The chunks of block 8 run in the other order, and a request picks its slot. -/
private def blockEight : List (ServingEvent String) :=
  [.saveBlock ⟨8, some 80, "h8", [["a", "b"], ["c"]]⟩, .insertChunk 1 true, .insertChunk 0 true,
    .insertSlot true true, .feed .receive]

/-- Block 9 is half saved, and one of its statements has failed. -/
private def halfOfNine : List (ServingEvent String) :=
  [.saveBlock ⟨9, some 90, "h9", [["a"], ["d"], ["e"]]⟩, .insertChunk 0 true, .insertChunk 1 false]

theorem published_slot_beside_a_half_saved_block : ∃ serving after : Serving String,
    Run ⟨.listen emptyTable, [], [], none, []⟩ (step syncOnly) (fun _ serving event => event.Allowed serving) blockEight
      serving ∧
    Run serving (step syncOnly) (fun _ serving event => event.Allowed serving) halfOfNine after ∧
      after.readAt 8 = [(8, "c"), (8, "a"), (8, "b")] := by
  have inserted : Inserted emptyTable := ⟨rfl, fun _ found => absurd found (Option.some_ne_none _).symm⟩
  obtain ⟨serving, after, run, goesOn, published, reads⟩ : ∃ serving after : Serving String,
      Run ⟨.listen emptyTable, [], [], none, []⟩ (step syncOnly) (fun _ serving event => event.Allowed serving) blockEight
        serving ∧
      Run serving (step syncOnly) (fun _ serving event => event.Allowed serving) halfOfNine after ∧
      serving.feed.sync.data.getSlotForCommitment .confirmed = 8 ∧
      serving.readAt 8 = [(8, "c"), (8, "a"), (8, "b")] := by
    refine ⟨_, _, .step (.step (.step (.step (.step .start ?_ rfl) trivial rfl) trivial rfl) trivial rfl) ?_ rfl,
      .step (.step (.step .start ?_ rfl) trivial rfl) trivial rfl, rfl, rfl⟩
    · exact fun _ found => absurd found (Option.some_ne_none _).symm
    · exact ⟨trivial, fun _ same => SlotEvent.noConfusion same⟩
    · intro row found
      cases found
      decide
  have stays := (published_slot_is_complete_and_stable inserted run goesOn published (by decide)).2
  exact ⟨serving, after, run, goesOn, stays.trans reads⟩

end Serving

end Cloudbreak.Model.SlotSync
