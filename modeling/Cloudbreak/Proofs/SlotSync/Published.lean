import Cloudbreak.Proofs.SlotSync.Mirror

/-! # What the task publishes

The published slots are those of the newest rows received, and the mint cache is called once for each confirmed slot,
in their order. Together with the rows sent this gives what a request reads, over any interleaving of the
indexer's writes and the task.
-/

namespace Cloudbreak.Model.SlotSync

open Cloudbreak.ToMathlib
open Health (CommitmentLevel Database SlotInsert)
open Processed (Anchor)

variable {config : SyncConfig} {row : SlotRow} {received : List SlotRow} {sync : Syncronizer} {last : Option SlotRow}

/-- What is published of the newest row of a commitment. Slot 0 is what the task starts with. -/
def publishedSlot : Option SlotRow → SlotData
  | none => .default
  | some row => if 0 < row.slot then ⟨row.slot, row.blockTime⟩ else .default

def publishedAnchor : Option SlotRow → Option Anchor
  | none => none
  | some row => if 0 < row.slot then row.blockhash.map fun blockhash => ⟨row.slot, blockhash⟩ else none

theorem publishedSlot_slot (last : Option SlotRow) : (publishedSlot last).slot = (last.map SlotRow.slot).getD 0 := by
  cases last with
  | none => rfl
  | some row =>
    rw [publishedSlot]
    split
    · rfl
    · next zero => exact (Nat.eq_zero_of_not_pos zero).symm

/-- A row that does not advance has the slot of the newest one, or is at slot 0. -/
theorem same_of_not_advanced (forward : ∀ prev, last = some prev → prev.Before row)
    (behind : ¬row.slot > (publishedSlot last).slot) (positive : 0 < row.slot) :
    ∃ prev, last = some prev ∧ prev.slot = row.slot ∧ prev.blockTime = row.blockTime ∧
      prev.blockhash = row.blockhash := by
  rw [publishedSlot_slot] at behind
  cases last with
  | none => exact absurd positive behind
  | some prev =>
    rcases forward prev rfl with less | same
    · exact absurd less behind
    · exact ⟨prev, rfl, same⟩

private theorem slot_eq_zero_of_not_advanced (forward : ∀ prev, last = some prev → prev.Before row)
    (zero : ¬0 < row.slot) :
    (publishedSlot last).slot = 0 ∧ publishedSlot last = .default ∧ publishedAnchor last = none := by
  cases last with
  | none => exact ⟨rfl, rfl, rfl⟩
  | some prev =>
    have low : ¬0 < prev.slot := fun positive => zero (positive.trans_le (forward prev rfl).slot_le)
    exact ⟨by rw [publishedSlot, if_neg low]; rfl, if_neg low, if_neg low⟩

private theorem publishedSlot_some (forward : ∀ prev, last = some prev → prev.Before row) : publishedSlot (some row) =
    if row.slot > (publishedSlot last).slot then ⟨row.slot, row.blockTime⟩ else publishedSlot last := by
  by_cases positive : 0 < row.slot
  · rw [publishedSlot, if_pos positive]
    split
    · rfl
    · next behind =>
      obtain ⟨prev, rfl, sameSlot, sameTime, -⟩ := same_of_not_advanced forward behind positive
      rw [publishedSlot, sameSlot, if_pos positive, sameTime]
  · obtain ⟨-, isDefault, -⟩ := slot_eq_zero_of_not_advanced forward positive
    have behind : ¬row.slot > (publishedSlot last).slot := fun less => positive (Nat.zero_lt_of_lt less)
    rw [publishedSlot, if_neg positive, if_neg behind, isDefault]

private theorem publishedAnchor_some (forward : ∀ prev, last = some prev → prev.Before row) :
    publishedAnchor (some row) =
    if row.slot > (publishedSlot last).slot then row.blockhash.map fun blockhash => ⟨row.slot, blockhash⟩
    else publishedAnchor last := by
  by_cases positive : 0 < row.slot
  · rw [publishedAnchor, if_pos positive]
    split
    · rfl
    · next behind =>
      obtain ⟨prev, rfl, sameSlot, -, sameHash⟩ := same_of_not_advanced forward behind positive
      rw [publishedAnchor, sameSlot, if_pos positive, sameHash]
  · obtain ⟨-, -, isNone⟩ := slot_eq_zero_of_not_advanced forward positive
    have behind : ¬row.slot > (publishedSlot last).slot := fun less => positive (Nat.zero_lt_of_lt less)
    rw [publishedAnchor, if_neg positive, if_neg behind, isNone]

/-! ## One notification -/

/-- What is published follows the rows received. -/
structure Published (config : SyncConfig) (received : List SlotRow) (sync : Syncronizer) : Prop where
  confirmed : sync.data.confirmedSlot = publishedSlot (newest received .confirmed)
  finalized : sync.data.finalizedSlot = publishedSlot (newest received .finalized)
  health : sync.data.healthy = (received.getLast?.map SlotRow.health).getD false
  anchor : sync.anchor = if config.processedAccounts then publishedAnchor (newest received .confirmed) else none

theorem Published.new : Published config [] .new :=
  ⟨rfl, rfl, rfl, (ite_self none).symm⟩

theorem Published.current (published : Published config received sync) {commitment : CommitmentLevel}
    (stored : commitment ≠ .processed) :
    sync.data.getSlotForCommitment commitment = (publishedSlot (newest received commitment)).slot ∧
      sync.data.getBlockTimeForCommitment commitment = (publishedSlot (newest received commitment)).blockTime := by
  cases commitment with
  | processed => contradiction
  | confirmed => exact ⟨congrArg SlotData.slot published.confirmed, congrArg SlotData.blockTime published.confirmed⟩
  | finalized => exact ⟨congrArg SlotData.slot published.finalized, congrArg SlotData.blockTime published.finalized⟩

/-- The rows of the mint cache's calls, once for each confirmed slot received. -/
structure Told (received calls : List SlotRow) : Prop where
  increasing : calls.Pairwise fun earlier later => earlier.slot < later.slot
  heard : ∀ call ∈ calls, call ∈ received ∧ call.commitment = .confirmed
  every : ∀ row ∈ received, row.commitment = .confirmed → 0 < row.slot → ∃ call ∈ calls, call.slot = row.slot

theorem Told.nil : Told [] [] :=
  ⟨List.Pairwise.nil, fun _ member => absurd member List.not_mem_nil, fun _ member => absurd member List.not_mem_nil⟩

private theorem Sendable.forward_newest (sendable : Sendable (received ++ [row])) :
    ∀ prev, newest received row.commitment = some prev → prev.Before row := by
  intro prev found
  obtain ⟨member, same⟩ := mem_of_newest found
  exact sendable.before_last member same

/-- A row that can be applied is, and what is published follows it. -/
theorem Published.apply (published : Published config received sync) (sendable : Sendable (received ++ [row])) :
    ∃ next, sync.apply config.processedAccounts row = some next ∧ next.confirmed = sync.confirmed ∧
      Published config (received ++ [row]) next := by
  have forward := sendable.forward_newest
  obtain ⟨notProcessed, hashed⟩ := sendable.applicable row (List.mem_append_right received (List.mem_singleton_self row))
  have lastRow : (received ++ [row]).getLast? = some row := List.getLast?_concat
  cases level : row.commitment with
  | processed => exact absurd level notProcessed
  | finalized =>
    rw [level] at forward
    have confirmedNewest : newest (received ++ [row]) .confirmed = newest received .confirmed := by
      rw [newest_concat, if_neg (by rw [level]; decide)]
    have finalizedNewest : newest (received ++ [row]) .finalized = some row := by
      rw [newest_concat, if_pos level]
    have slot := publishedSlot_some forward
    rw [← published.finalized] at slot
    simp only [Syncronizer.apply, level]
    split
    · next advanced =>
      rw [if_pos advanced] at slot
      refine ⟨_, rfl, rfl, ?_, ?_, ?_, ?_⟩
      · rw [confirmedNewest]; exact published.confirmed
      · rw [finalizedNewest]; exact slot.symm
      · rw [lastRow]; rfl
      · rw [confirmedNewest]; exact published.anchor
    · next behind =>
      rw [if_neg behind] at slot
      refine ⟨_, rfl, rfl, ?_, ?_, ?_, ?_⟩
      · rw [confirmedNewest]; exact published.confirmed
      · rw [finalizedNewest]; exact slot.symm
      · rw [lastRow]; rfl
      · rw [confirmedNewest]; exact published.anchor
  | confirmed =>
    rw [level] at forward
    have confirmedNewest : newest (received ++ [row]) .confirmed = some row := by
      rw [newest_concat, if_pos level]
    have finalizedNewest : newest (received ++ [row]) .finalized = newest received .finalized := by
      rw [newest_concat, if_neg (by rw [level]; decide)]
    have slot := publishedSlot_some forward
    have anchor := publishedAnchor_some forward
    rw [← published.confirmed] at slot anchor
    obtain ⟨blockhash, isHash⟩ := Option.isSome_iff_exists.mp (hashed level)
    simp only [Syncronizer.apply, level]
    split
    · next advanced =>
      rw [if_pos advanced] at slot anchor
      have anchored := published.anchor
      cases wanted : config.processedAccounts with
      | true =>
        simp only [isHash, if_true, Option.map_some]
        rw [isHash, Option.map_some] at anchor
        refine ⟨_, rfl, rfl, ?_, ?_, ?_, ?_⟩
        · rw [confirmedNewest]; exact slot.symm
        · rw [finalizedNewest]; exact published.finalized
        · rw [lastRow]; rfl
        · rw [confirmedNewest, wanted, if_pos rfl]; exact anchor.symm
      | false =>
        rw [wanted] at anchored
        simp only [Bool.false_eq_true, if_false] at anchored ⊢
        refine ⟨_, rfl, rfl, ?_, ?_, ?_, ?_⟩
        · rw [confirmedNewest]; exact slot.symm
        · rw [finalizedNewest]; exact published.finalized
        · rw [lastRow]; rfl
        · rw [wanted]; exact anchored
    · next behind =>
      rw [if_neg behind] at slot anchor
      refine ⟨_, rfl, rfl, ?_, ?_, ?_, ?_⟩
      · rw [confirmedNewest]; exact slot.symm
      · rw [finalizedNewest]; exact published.finalized
      · rw [lastRow]; rfl
      · rw [confirmedNewest, anchor]; exact published.anchor

private theorem Syncronizer.apply_told (sync : Syncronizer) (calls : List SlotRow) (processedAccounts : Bool) :
    ({ sync with confirmed := calls }).apply processedAccounts row =
      (sync.apply processedAccounts row).map fun next => { next with confirmed := calls } := by
  cases level : row.commitment with
  | processed => simp only [apply, level, Option.map_none]
  | finalized =>
    simp only [apply, level]
    split <;> rfl
  | confirmed =>
    simp only [apply, level]
    split
    · split
      · rw [Option.map_map]
        rfl
      · rfl
    · rfl

/-- A confirmed advance is above every call. -/
theorem Told.concat {calls : List SlotRow} (told : Told received calls) (sendable : Sendable (received ++ [row]))
    (level : row.commitment = .confirmed) (advanced : row.slot > (publishedSlot (newest received .confirmed)).slot) :
    Told (received ++ [row]) (calls ++ [row]) := by
  have inLast : row ∈ calls ++ [row] := List.mem_append_right calls (List.mem_singleton_self row)
  constructor
  · refine List.pairwise_append.mpr ⟨told.increasing, List.pairwise_singleton _ row, fun call member other isRow => ?_⟩
    cases List.mem_singleton.mp isRow
    -- The call is a row received, so the newest confirmed row is at least as high.
    obtain ⟨heard, confirmed⟩ := told.heard call member
    obtain ⟨newestRow, found⟩ := exists_newest heard
    rw [confirmed] at found
    have below : call.slot ≤ newestRow.slot := (sendable.of_append.before_newest heard (confirmed ▸ found)).slot_le
    rw [publishedSlot_slot, found] at advanced
    exact below.trans_lt advanced
  · intro call member
    rcases List.mem_append.mp member with old | isRow
    · obtain ⟨heard, confirmed⟩ := told.heard call old
      exact ⟨List.mem_append_left _ heard, confirmed⟩
    · cases List.mem_singleton.mp isRow
      exact ⟨List.mem_append_right _ isRow, level⟩
  · intro other member confirmed positive
    rcases List.mem_append.mp member with old | isRow
    · obtain ⟨call, called, same⟩ := told.every other old confirmed positive
      exact ⟨call, List.mem_append_left _ called, same⟩
    · cases List.mem_singleton.mp isRow
      exact ⟨row, inLast, rfl⟩

/-- A row that is no confirmed advance has a slot of which the mint cache is told already. -/
theorem Told.concat_of_not_advanced {calls : List SlotRow} (told : Told received calls)
    (sendable : Sendable (received ++ [row]))
    (behind : row.commitment = .confirmed → ¬row.slot > (publishedSlot (newest received .confirmed)).slot) :
    Told (received ++ [row]) calls := by
  refine ⟨told.increasing, fun call member => ?_, fun other member confirmed positive => ?_⟩
  · obtain ⟨heard, confirmed⟩ := told.heard call member
    exact ⟨List.mem_append_left _ heard, confirmed⟩
  · rcases List.mem_append.mp member with old | isRow
    · exact told.every other old confirmed positive
    · cases List.mem_singleton.mp isRow
      have forward := sendable.forward_newest
      rw [confirmed] at forward
      obtain ⟨prev, found, sameSlot, -⟩ := same_of_not_advanced forward (behind confirmed) positive
      obtain ⟨heard, level⟩ := mem_of_newest found
      obtain ⟨call, called, same⟩ := told.every prev heard level (sameSlot ▸ positive)
      exact ⟨call, called, same.trans sameSlot⟩

/-- The task and its calls after one notification. -/
theorem Published.receive (published : Published config received sync)
    (told : config.mintCache = true → Told received sync.confirmed) (sendable : Sendable (received ++ [row])) :
    ∃ next, sync.receive config row = some next ∧ Published config (received ++ [row]) next ∧
      (config.mintCache = true → Told (received ++ [row]) next.confirmed) := by
  obtain ⟨next, applied, sameCalls, follows⟩ := published.apply sendable
  have advance : sync.confirmedAdvance row = true ↔ row.commitment = .confirmed ∧
      row.slot > (publishedSlot (newest received .confirmed)).slot := by
    rw [Syncronizer.confirmedAdvance, published.confirmed, Bool.and_eq_true, decide_eq_true_iff, decide_eq_true_iff]
  rw [Syncronizer.receive]
  split
  · next calls =>
    obtain ⟨enabled, advanced⟩ := Bool.and_eq_true_iff.mp calls
    obtain ⟨level, higher⟩ := advance.mp advanced
    rw [Syncronizer.apply_told, applied, Option.map_some]
    refine ⟨_, rfl, ⟨follows.confirmed, follows.finalized, follows.health, follows.anchor⟩, fun _ => ?_⟩
    exact (told enabled).concat sendable level higher
  · next quiet =>
    refine ⟨next, applied, follows, fun enabled => ?_⟩
    rw [sameCalls]
    refine (told enabled).concat_of_not_advanced sendable fun level higher => quiet ?_
    rw [enabled, Bool.true_and]
    exact advance.mpr ⟨level, higher⟩

/-! ## The whole feed -/

namespace SlotFeed

variable {db : Database} {events : List SlotEvent} {event : SlotEvent} {feed next : SlotFeed}

/-- The rows sent are those received and those under way. -/
structure Follows (config : SyncConfig) (feed : SlotFeed) : Prop where
  sent : Sent feed.db feed.sent
  received : ∃ received, feed.sent = received ++ feed.queue ∧ Published config received feed.sync ∧
    (config.mintCache = true → Told received feed.sync.confirmed)

theorem listen_follows (inserted : Inserted db) : (listen db).Follows config where
  sent := by
    refine ⟨⟨List.Pairwise.nil, fun _ member => absurd member List.not_mem_nil⟩, inserted, ?_, ?_⟩
    · intro commitment row found
      exact absurd found (Option.some_ne_none row).symm
    · exact fun _ member => absurd member List.not_mem_nil
  received := ⟨[], rfl, .new, fun _ => .nil⟩

theorem Follows.write (follows : feed.Follows config) {after : Database} {order : List CommitmentLevel}
    (moved : Forward feed.db after) (covers : ∀ commitment, after.slots commitment ≠ feed.db.slots commitment →
      commitment ∈ order) : (feed.write after order).Follows config := by
  obtain ⟨received, whole, rest⟩ := follows.received
  refine ⟨follows.sent.write moved covers, received, ?_, rest⟩
  rw [SlotFeed.write, whole, List.append_assoc]

theorem Follows.step (follows : feed.Follows config) (allowed : event.Allowed feed)
    (moves : feed.step config event = some next) : next.Follows config := by
  cases event with
  | insertSlot insert =>
    cases moves
    obtain ⟨notProcessed, hashed⟩ := allowed
    refine follows.write (follows.sent.inserted.insertSlot notProcessed hashed) fun commitment changed => ?_
    refine List.mem_singleton.mpr ?_
    by_contra apart
    exact changed (insertSlot_of_ne feed.db insert apart)
  | updateServiceHealth healthy order =>
    cases moves
    refine follows.write (follows.sent.inserted.updateServiceHealth healthy order) fun commitment changed => ?_
    by_contra apart
    exact changed (updateServiceHealth_of_not_mem feed.db healthy apart)
  | receive =>
    obtain ⟨received, whole, published, told⟩ := follows.received
    rw [SlotFeed.step] at moves
    split at moves
    · contradiction
    · next row rest queued =>
      rw [queued, List.append_cons] at whole
      have sendable : Sendable (received ++ [row]) := (whole ▸ follows.sent.sendable).of_append
      obtain ⟨sync, received_row, published, told⟩ := published.receive told sendable
      rw [received_row] at moves
      cases moves
      exact ⟨follows.sent, _, whole, published, told⟩

private theorem run_follows (inserted : Inserted db)
    (run : Run (listen db) (step config) (fun _ feed event => event.Allowed feed) events feed) :
    feed.Follows config := by
  refine run.stateInvariant (listen_follows inserted) ?_
  intro _ _ _ _ follows allowed moves
  exact follows.step allowed moves

/-- The published slots, times, anchor and health are those of the table. -/
structure CaughtUp (config : SyncConfig) (feed : SlotFeed) : Prop where
  slots : ∀ row ∈ feed.sent, ∃ current, feed.db.slots row.commitment = some current ∧
    feed.sync.data.getSlotForCommitment row.commitment = current.slot ∧
    (0 < current.slot → feed.sync.data.getBlockTimeForCommitment row.commitment = current.blockTime)
  anchor : config.processedAccounts = true → ∀ row ∈ feed.sent, row.commitment = .confirmed →
    ∃ current, feed.db.slots .confirmed = some current ∧ (0 < current.slot →
      ∃ blockhash, current.blockhash = some blockhash ∧ feed.sync.anchor = some ⟨current.slot, blockhash⟩)
  health : feed.sent ≠ [] → ∃ commitment row, feed.db.slots commitment = some row ∧
    feed.sync.data.healthy = row.health

theorem Follows.caughtUp (follows : feed.Follows config) (idle : feed.queue = []) : feed.CaughtUp config := by
  obtain ⟨received, whole, published, -⟩ := follows.received
  rw [idle, List.append_nil] at whole
  rw [← whole] at published
  refine ⟨fun row member => ?_, fun enabled row member level => ?_, fun some_sent => ?_⟩
  · obtain ⟨last, found⟩ := exists_newest member
    obtain ⟨current, inTable, rfl⟩ := follows.sent.last _ _ found
    obtain ⟨sameSlot, sameTime⟩ := published.current (follows.sent.sendable.applicable row member).1
    rw [found] at sameSlot sameTime
    refine ⟨current, inTable, sameSlot.trans (publishedSlot_slot _), fun positive => ?_⟩
    exact sameTime.trans (congrArg SlotData.blockTime (if_pos positive))
  · obtain ⟨last, found⟩ := exists_newest member
    rw [level] at found
    obtain ⟨current, inTable, rfl⟩ := follows.sent.last _ _ found
    refine ⟨current, inTable, fun positive => ?_⟩
    obtain ⟨blockhash, isHash⟩ := Option.isSome_iff_exists.mp (follows.sent.inserted.2 current inTable)
    refine ⟨blockhash, isHash, ?_⟩
    rw [published.anchor, if_pos enabled, found]
    exact (if_pos positive).trans (congrArg (Option.map fun blockhash => Anchor.mk current.slot blockhash) isHash)
  · obtain ⟨before, last, isConcat⟩ := (List.eq_nil_or_concat feed.sent).resolve_left some_sent
    rw [List.concat_eq_append] at isConcat
    have found : newest feed.sent last.commitment = some last := by
      rw [isConcat, newest_concat, if_pos rfl]
    obtain ⟨current, inTable, isRow⟩ := follows.sent.last _ _ found
    refine ⟨_, current, inTable, ?_⟩
    rw [published.health, isConcat, List.getLast?_concat]
    exact congrArg SlotRow.health isRow

/-- A slot above 0 is published only once the table has a row. -/
theorem Follows.exists_row (follows : feed.Follows config) {commitment : CommitmentLevel}
    (stored : commitment ≠ .processed) (positive : 0 < feed.sync.data.getSlotForCommitment commitment) :
    ∃ row, feed.db.slots commitment = some row := by
  obtain ⟨received, whole, published, -⟩ := follows.received
  rw [(published.current stored).1, publishedSlot_slot] at positive
  cases isNewest : newest received commitment with
  | none =>
    rw [isNewest] at positive
    exact absurd positive (Nat.lt_irrefl 0)
  | some last =>
    obtain ⟨member, rfl⟩ := mem_of_newest isNewest
    obtain ⟨current, inTable, -⟩ := follows.sent.ahead last (whole ▸ List.mem_append_left _ member)
    exact ⟨current, inTable⟩

/-- The published slot of a commitment is at most the table's. -/
theorem Follows.slot_le (follows : feed.Follows config) {commitment : CommitmentLevel} {row : Health.SlotRow}
    (stored : commitment ≠ .processed) (found : feed.db.slots commitment = some row) :
    feed.sync.data.getSlotForCommitment commitment ≤ row.slot := by
  obtain ⟨received, whole, published, -⟩ := follows.received
  rw [(published.current stored).1, publishedSlot_slot]
  cases isNewest : newest received commitment with
  | none => exact Nat.zero_le _
  | some last =>
    obtain ⟨member, rfl⟩ := mem_of_newest isNewest
    obtain ⟨current, inTable, before⟩ := follows.sent.ahead last (whole ▸ List.mem_append_left _ member)
    cases found.symm.trans inTable
    exact before.slot_le

/-- Over every interleaving of the indexer's inserts, its health updates and the task: a notification never panics,
the published slots never run ahead of the table, they are the table's whenever no notification is under way, and
the mint cache is called once for each confirmed slot published, in increasing order. -/
theorem published_slots_follow_the_table (inserted : Inserted db)
    (run : Run (listen db) (step config) (fun _ feed event => event.Allowed feed) events feed) :
    (∀ row rest, feed.queue = row :: rest → (feed.sync.receive config row).isSome = true) ∧
      (∀ commitment row, commitment ≠ .processed → feed.db.slots commitment = some row →
        feed.sync.data.getSlotForCommitment commitment ≤ row.slot) ∧
      (feed.queue = [] → feed.CaughtUp config) ∧
      (config.mintCache = true →
        (feed.sync.confirmed.Pairwise fun earlier later => earlier.slot < later.slot) ∧
          (∀ call ∈ feed.sync.confirmed, call ∈ feed.sent ∧
            call.slot ≤ feed.sync.data.getSlotForCommitment .confirmed) ∧
          (0 < feed.sync.data.getSlotForCommitment .confirmed →
            ∃ call ∈ feed.sync.confirmed, call.slot = feed.sync.data.getSlotForCommitment .confirmed)) := by
  have follows := run_follows inserted run
  refine ⟨fun row rest queued => ?_, fun commitment row stored found => follows.slot_le stored found,
    follows.caughtUp, fun enabled => ?_⟩
  · obtain ⟨received, whole, published, told⟩ := follows.received
    rw [queued, List.append_cons] at whole
    obtain ⟨next, received_row, -⟩ := published.receive told (whole ▸ follows.sent.sendable).of_append
    exact Option.isSome_iff_exists.mpr ⟨next, received_row⟩
  · obtain ⟨received, whole, published, told⟩ := follows.received
    have sendable : Sendable received := (whole ▸ follows.sent.sendable).of_append
    have shown := (published.current (show CommitmentLevel.confirmed ≠ .processed by decide)).1
    rw [publishedSlot_slot] at shown
    refine ⟨(told enabled).increasing, fun call called => ?_, fun positive => ?_⟩
    · obtain ⟨heard, level⟩ := (told enabled).heard call called
      obtain ⟨last, found⟩ := exists_newest heard
      refine ⟨whole ▸ List.mem_append_left _ heard, ?_⟩
      have before := (sendable.before_newest heard found).slot_le
      rw [level] at found
      rwa [shown, found]
    · rw [shown] at positive ⊢
      cases isNewest : newest received .confirmed with
      | none =>
        rw [isNewest] at positive
        exact absurd positive (Nat.lt_irrefl 0)
      | some last =>
        rw [isNewest] at positive
        obtain ⟨heard, level⟩ := mem_of_newest isNewest
        exact (told enabled).every last heard level positive

/-- A table with a row of each commitment, one of which is unhealthy. -/
private def twoRows : Database where
  healthy := false
  slots
    | .processed => none
    | .confirmed => some ⟨7, 70, true, some "h7"⟩
    | .finalized => some ⟨5, 50, false, none⟩

private def allOn : SyncConfig := ⟨true, true⟩

/-- The health update reaches one row, and a confirmed slot comes in before the task has seen it. -/
private def overtaking : List SlotEvent :=
  [.updateServiceHealth true [.finalized, .confirmed], .insertSlot ⟨8, some 80, some "h8", .confirmed, true⟩, .receive,
    .receive]

private theorem overtaking_run : ∃ feed, Run (listen twoRows) (step allOn) (fun _ feed event => event.Allowed feed)
    overtaking feed ∧ feed.queue = [] ∧ feed.sync.data = ⟨⟨8, 80⟩, ⟨5, 50⟩, true⟩ := by
  refine ⟨_, .step (.step (.step (.step .start ?_ rfl) ?_ rfl) trivial rfl) trivial rfl, rfl, rfl⟩
  · exact ⟨by decide, by decide⟩
  · exact ⟨by decide, fun _ => rfl⟩

theorem published_slots_after_an_overtaking_insert : ∃ feed, Run (listen twoRows) (step allOn)
    (fun _ feed event => event.Allowed feed) overtaking feed ∧ feed.CaughtUp allOn ∧
      feed.sync.data = ⟨⟨8, 80⟩, ⟨5, 50⟩, true⟩ := by
  obtain ⟨feed, run, idle, shown⟩ := overtaking_run
  have inserted : Inserted twoRows := by
    refine ⟨rfl, fun row found => ?_⟩
    cases found
    rfl
  exact ⟨feed, run, (published_slots_follow_the_table inserted run).2.2.1 idle, shown⟩

end SlotFeed

end Cloudbreak.Model.SlotSync
