import Cloudbreak.Model.SlotSync.SlotSyncronizer

/-! # The published slots follow the table

Every change of a row is sent once, and the rows sent for one commitment only move forward. What the task publishes
is the newest row it has received for each commitment. So it never panics, never runs ahead of the table, and has
caught up with it whenever no notification is under way.
-/

namespace Cloudbreak.Model.SlotSync

open Cloudbreak.ToMathlib
open Health (CommitmentLevel Database SlotInsert)
open Processed (Anchor)

variable {commitment : CommitmentLevel} {row earlier later : SlotRow} {rows sent : List SlotRow}

/-! ## Rows move forward -/

/-- A later row of the same commitment has a higher slot, or only another health. -/
def SlotRow.Before (earlier later : SlotRow) : Prop :=
  earlier.slot < later.slot ∨
    earlier.slot = later.slot ∧ earlier.blockTime = later.blockTime ∧ earlier.blockhash = later.blockhash

theorem SlotRow.Before.refl (row : SlotRow) : row.Before row := Or.inr ⟨rfl, rfl, rfl⟩

theorem SlotRow.Before.trans {first second third : SlotRow} (early : first.Before second) (late : second.Before third) :
    first.Before third := by
  rcases early with less | ⟨sameSlot, sameTime, sameHash⟩
  · rcases late with more | ⟨same, -, -⟩
    · exact Or.inl (less.trans more)
    · exact Or.inl (less.trans_eq same)
  · rcases late with more | ⟨same, time, hash⟩
    · exact Or.inl (sameSlot.trans_lt more)
    · exact Or.inr ⟨sameSlot.trans same, sameTime.trans time, sameHash.trans hash⟩

theorem SlotRow.Before.slot_le (before : earlier.Before later) : earlier.slot ≤ later.slot := by
  rcases before with less | ⟨same, -, -⟩
  · exact less.le
  · exact same.le

/-- A row that the task can apply. -/
def SlotRow.Applicable (row : SlotRow) : Prop :=
  row.commitment ≠ .processed ∧ (row.commitment = .confirmed → row.blockhash.isSome)

/-- A write keeps every row or moves it forward, and leaves rows that can be applied. -/
structure Forward (before after : Database) : Prop where
  kept : ∀ commitment row, before.slots commitment = some row → ∃ row', after.slots commitment = some row' ∧
    (SlotRow.of commitment row).Before (SlotRow.of commitment row')
  inserted : Inserted after

theorem Inserted.applicable {db : Database} (inserted : Inserted db) {row : Health.SlotRow}
    (found : db.slots commitment = some row) : (SlotRow.of commitment row).Applicable := by
  constructor
  · intro (same : commitment = .processed)
    rw [same, inserted.1] at found
    contradiction
  · intro (same : commitment = .confirmed)
    rw [same] at found
    exact inserted.2 row found

theorem insertSlot_of_ne (db : Database) (insert : SlotInsert) (apart : commitment ≠ insert.commitment) :
    (db.insertSlot insert).slots commitment = db.slots commitment := by
  rw [Database.insertSlot]
  split
  · exact Function.update_of_ne apart _ _
  · dsimp only
    split
    · exact Function.update_of_ne apart _ _
    · rfl

/-- The row of the insert's commitment after it is the one that was there, or the new one at a higher slot. -/
theorem insertSlot_self (db : Database) (insert : SlotInsert) :
    (db.insertSlot insert).slots insert.commitment = db.slots insert.commitment ∧
        db.slots insert.commitment ≠ none ∨
      ∃ health, (db.insertSlot insert).slots insert.commitment =
          some ⟨insert.slot, insert.blockTime.getD 0, health, insert.blockhash⟩ ∧
        ∀ row, db.slots insert.commitment = some row → row.slot < insert.slot := by
  rw [Database.insertSlot]
  split
  · next absent =>
    refine Or.inr ⟨insert.healthy, Function.update_self _ _ _, fun row found => ?_⟩
    rw [absent] at found
    contradiction
  · next row found =>
    dsimp only
    split
    · next higher =>
      refine Or.inr ⟨row.health, Function.update_self _ _ _, fun other same => ?_⟩
      rw [found] at same
      cases same
      exact higher
    · exact Or.inl ⟨rfl, found ▸ Option.some_ne_none _⟩

theorem Inserted.insertSlot {db : Database} (inserted : Inserted db) {insert : SlotInsert}
    (notProcessed : insert.commitment ≠ .processed)
    (hashed : insert.commitment = .confirmed → insert.blockhash.isSome) : Forward db (db.insertSlot insert) := by
  have self := insertSlot_self db insert
  constructor
  · intro commitment row found
    by_cases same : commitment = insert.commitment
    · subst same
      rcases self with ⟨kept, -⟩ | ⟨health, written, lower⟩
      · exact ⟨row, kept.trans found, .refl _⟩
      · exact ⟨_, written, Or.inl (lower row found)⟩
    · exact ⟨row, (insertSlot_of_ne db insert same).trans found, .refl _⟩
  · constructor
    · rw [insertSlot_of_ne db insert notProcessed.symm]
      exact inserted.1
    · intro row found
      by_cases same : CommitmentLevel.confirmed = insert.commitment
      · rcases self with ⟨kept, -⟩ | ⟨health, written, -⟩
        · rw [same, kept, ← same] at found
          exact inserted.2 row found
        · rw [same, written] at found
          cases found
          exact hashed same.symm
      · rw [insertSlot_of_ne db insert same] at found
        exact inserted.2 row found

theorem updateServiceHealth_of_not_mem (db : Database) (healthy : Bool) {found : List CommitmentLevel}
    (apart : commitment ∉ found) : (db.updateServiceHealth healthy found).slots commitment = db.slots commitment := by
  rw [Database.updateServiceHealth]
  simp only [apart, if_false]
  exact Option.map_id' ..

theorem updateServiceHealth_of_mem (db : Database) (healthy : Bool) {found : List CommitmentLevel}
    (member : commitment ∈ found) : (db.updateServiceHealth healthy found).slots commitment =
      (db.slots commitment).map fun row => { row with health := healthy } := by
  rw [Database.updateServiceHealth]
  simp only [member, if_true]

theorem Inserted.updateServiceHealth {db : Database} (inserted : Inserted db) (healthy : Bool)
    (found : List CommitmentLevel) : Forward db (db.updateServiceHealth healthy found) := by
  constructor
  · intro commitment row present
    by_cases member : commitment ∈ found
    · refine ⟨{ row with health := healthy }, ?_, Or.inr ⟨rfl, rfl, rfl⟩⟩
      rw [updateServiceHealth_of_mem db healthy member, present, Option.map_some]
    · exact ⟨row, (updateServiceHealth_of_not_mem db healthy member).trans present, .refl _⟩
  · constructor
    · simp only [Database.updateServiceHealth, inserted.1, Option.map_none]
    · intro row present
      obtain ⟨before, inTable, rfl⟩ := Option.map_eq_some_iff.mp present
      split
      · exact inserted.2 before inTable
      · exact inserted.2 before inTable

/-! ## The rows sent -/

/-- The last row of a commitment. -/
def newest (rows : List SlotRow) (commitment : CommitmentLevel) : Option SlotRow :=
  rows.reverse.find? fun row => decide (row.commitment = commitment)

theorem newest_concat (rows : List SlotRow) (row : SlotRow) :
    newest (rows ++ [row]) commitment = if row.commitment = commitment then some row else newest rows commitment := by
  rw [newest, List.reverse_append, List.reverse_singleton, List.singleton_append, List.find?_cons]
  split
  · next same => rw [if_pos (of_decide_eq_true same)]
  · next apart =>
    rw [if_neg (of_decide_eq_false apart)]
    rfl

private theorem newest_append (rows more : List SlotRow) :
    newest (rows ++ more) commitment = (newest more commitment).or (newest rows commitment) := by
  rw [newest, List.reverse_append, List.find?_append]
  rfl

theorem mem_of_newest (found : newest rows commitment = some row) : row ∈ rows ∧ row.commitment = commitment :=
  have holds := List.find?_some (p := fun row : SlotRow => decide (row.commitment = commitment)) found
  ⟨List.mem_reverse.mp (List.mem_of_find?_eq_some found), of_decide_eq_true holds⟩

theorem exists_newest (member : row ∈ rows) : ∃ last, newest rows row.commitment = some last := by
  rw [← Option.isSome_iff_exists, newest, List.find?_isSome]
  exact ⟨row, List.mem_reverse.mpr member, decide_eq_true rfl⟩

/-- Rows sent in an order that only moves each commitment forward, each of which can be applied. -/
structure Sendable (rows : List SlotRow) : Prop where
  forward : rows.Pairwise fun earlier later => earlier.commitment = later.commitment → earlier.Before later
  applicable : ∀ row ∈ rows, row.Applicable

theorem Sendable.of_append {more : List SlotRow} (sendable : Sendable (rows ++ more)) : Sendable rows :=
  ⟨(List.pairwise_append.mp sendable.forward).1, fun row member =>
    sendable.applicable row (List.mem_append_left more member)⟩

theorem Sendable.before_last (sendable : Sendable (rows ++ [later])) (member : earlier ∈ rows)
    (same : earlier.commitment = later.commitment) : earlier.Before later :=
  (List.pairwise_append.mp sendable.forward).2.2 earlier member later (List.mem_singleton_self later) same

/-- The newest row of a commitment is after every row of it. -/
theorem Sendable.before_newest (sendable : Sendable rows) (member : row ∈ rows)
    (found : newest rows row.commitment = some later) : row.Before later := by
  induction rows using List.reverseRecOn with
  | nil => exact absurd member List.not_mem_nil
  | append_singleton rows last ih =>
    rw [newest_concat] at found
    split at found
    · next same =>
      cases found
      rcases List.mem_append.mp member with old | isLast
      · exact sendable.before_last old same.symm
      · cases List.mem_singleton.mp isLast
        exact .refl _
    · next apart =>
      rcases List.mem_append.mp member with old | isLast
      · exact ih sendable.of_append old found
      · cases List.mem_singleton.mp isLast
        exact absurd rfl apart

/-- The rows sent so far and the table. -/
structure Sent (db : Database) (sent : List SlotRow) : Prop where
  sendable : Sendable sent
  inserted : Inserted db
  /-- The last row sent of a commitment is the row in the table. -/
  last : ∀ commitment row, newest sent commitment = some row →
    ∃ row', db.slots commitment = some row' ∧ row = SlotRow.of commitment row'
  /-- The table is not behind any row sent. -/
  ahead : ∀ row ∈ sent, ∃ row', db.slots row.commitment = some row' ∧ row.Before (SlotRow.of row.commitment row')

private theorem mem_notifySlotsChange {before after : Database} :
    row ∈ notifySlotsChange before after commitment ↔ after.slots commitment ≠ before.slots commitment ∧
      ∃ row', after.slots commitment = some row' ∧ SlotRow.of commitment row' = row := by
  rw [notifySlotsChange]
  split
  · next same => simp [same]
  · next changed => simp [changed]

/-- A statement sends the changed rows of the commitments it writes. -/
theorem mem_notified {before after : Database} {order : List CommitmentLevel} :
    row ∈ order.flatMap (notifySlotsChange before after) ↔ row.commitment ∈ order ∧
      after.slots row.commitment ≠ before.slots row.commitment ∧
      ∃ row', after.slots row.commitment = some row' ∧ SlotRow.of row.commitment row' = row := by
  rw [List.mem_flatMap]
  constructor
  · rintro ⟨commitment, written, notified⟩
    obtain ⟨changed, row', found, rfl⟩ := mem_notifySlotsChange.mp notified
    exact ⟨written, changed, row', found, rfl⟩
  · rintro ⟨written, changed⟩
    exact ⟨row.commitment, written, mem_notifySlotsChange.mpr changed⟩

/-- A statement that writes forward keeps the rows sent on the table. -/
theorem Sent.write {before after : Database} {order : List CommitmentLevel} (state : Sent before sent)
    (moved : Forward before after) (covers : ∀ commitment, after.slots commitment ≠ before.slots commitment →
      commitment ∈ order) : Sent after (sent ++ order.flatMap (notifySlotsChange before after)) := by
  -- Rows sent before stay behind the table, and the new ones are the table's.
  have behind : ∀ row ∈ sent, ∃ row', after.slots row.commitment = some row' ∧
      row.Before (SlotRow.of row.commitment row') := by
    intro row member
    obtain ⟨old, found, early⟩ := state.ahead row member
    obtain ⟨new, written, late⟩ := moved.kept _ old found
    exact ⟨new, written, early.trans late⟩
  constructor
  · constructor
    · refine List.pairwise_append.mpr ⟨state.sendable.forward, ?_, fun row member row' notified same => ?_⟩
      · refine List.pairwise_of_forall_mem_list fun first one second two same => ?_
        obtain ⟨-, -, row', found, of_first⟩ := mem_notified.mp one
        obtain ⟨-, -, other, again, of_second⟩ := mem_notified.mp two
        rw [← same] at again of_second
        cases found.symm.trans again
        rw [← of_first, ← of_second]
        exact .refl _
      · obtain ⟨new, written, early⟩ := behind row member
        obtain ⟨-, -, other, again, of_other⟩ := mem_notified.mp notified
        rw [← same] at again of_other
        cases written.symm.trans again
        rwa [← of_other]
    · intro row member
      rcases List.mem_append.mp member with old | notified
      · exact state.sendable.applicable row old
      · obtain ⟨-, -, row', found, of_row⟩ := mem_notified.mp notified
        rw [← of_row]
        exact moved.inserted.applicable found
  · exact moved.inserted
  · intro commitment row found
    rw [newest_append, Option.or_eq_some_iff] at found
    rcases found with new | ⟨none_new, old⟩
    · obtain ⟨member, rfl⟩ := mem_of_newest new
      obtain ⟨-, -, row', written, of_row⟩ := mem_notified.mp member
      exact ⟨row', written, of_row.symm⟩
    · obtain ⟨row', was, rfl⟩ := state.last commitment row old
      refine ⟨row', ?_, rfl⟩
      by_contra changed
      obtain ⟨new, written, -⟩ := moved.kept _ _ was
      have differs : after.slots commitment ≠ before.slots commitment := by rwa [was]
      have notified : SlotRow.of commitment new ∈ order.flatMap (notifySlotsChange before after) :=
        mem_notified.mpr ⟨covers commitment differs, differs, new, written, rfl⟩
      obtain ⟨last, isLast⟩ := exists_newest notified
      exact absurd (none_new.symm.trans isLast) (Option.some_ne_none _).symm
  · intro row member
    rcases List.mem_append.mp member with old | notified
    · exact behind row old
    · obtain ⟨-, -, row', found, of_row⟩ := mem_notified.mp notified
      refine ⟨row', found, ?_⟩
      rw [of_row]
      exact .refl _

end Cloudbreak.Model.SlotSync
