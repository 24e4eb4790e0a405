import Mathlib.Data.Finset.Basic
import Cloudbreak.Model.Health.ServiceHealth

/-! # The database mirrors the reasons

While writes are under way the one decided last carries the verdict; with none under way the flag and every
row do. Both survive as long as a write is not overtaken by a later one of the other value, and no fresh row
that no later update will find is stamped with an old sample.
-/

namespace Cloudbreak.Model.Health

open Cloudbreak.ToMathlib

/-- The rows have one value of the health, but for those that an update under way will still change. -/
def Database.RowsShow (db : Database) (healthy : Bool) (found : List CommitmentLevel) : Prop :=
  ∀ commitment row, db.slots commitment = some row → commitment ∉ found → row.health = healthy

/-- The flag and the health of every row have one value. -/
structure Database.Shows (db : Database) (healthy : Bool) : Prop where
  flag : db.healthy = healthy
  rows : ∀ commitment row, db.slots commitment = some row → row.health = healthy

private theorem Database.mem_present {db : Database} {commitment : CommitmentLevel} :
    commitment ∈ db.present ↔ (db.slots commitment).isSome = true := by
  rw [Database.present, List.mem_filter, and_iff_right]
  cases commitment with
  | processed => exact List.mem_cons_self
  | confirmed => exact List.mem_cons_of_mem _ List.mem_cons_self
  | finalized => exact List.mem_cons_of_mem _ (List.mem_cons_of_mem _ (List.mem_singleton_self _))

/-- The commit changes what its `UPDATE` has found. -/
theorem Database.RowsShow.updateServiceHealth {db : Database} {healthy : Bool} {found : List CommitmentLevel}
    (shows : db.RowsShow healthy found) : (db.updateServiceHealth healthy found).Shows healthy := by
  refine ⟨rfl, fun commitment row present => ?_⟩
  obtain ⟨before, inTable, rfl⟩ := Option.map_eq_some_iff.mp present
  split
  · rfl
  · next apart => exact shows commitment before inTable apart

/-- An insert into a row that no update under way has found keeps what the rows show, unless it makes a row with
another sample. -/
theorem Database.RowsShow.insertSlot {db : Database} {healthy : Bool} {found : List CommitmentLevel}
    {insert : SlotInsert} (shows : db.RowsShow healthy found) (free : insert.commitment ∉ found)
    (fresh : db.slots insert.commitment = none → insert.healthy = healthy) :
    (db.insertSlot insert).RowsShow healthy found := by
  have updated : ∀ stamped : SlotRow, stamped.health = healthy →
      ({ db with slots := Function.update db.slots insert.commitment (some stamped) } : Database).RowsShow healthy
        found := by
    intro stamped same commitment row present apart
    dsimp only at present
    rw [Function.update_apply] at present
    split at present
    · cases present
      exact same
    · exact shows commitment row present apart
  unfold Database.insertSlot
  dsimp only
  split
  · next absent => exact updated _ (fresh absent)
  · next row present =>
    split
    · exact updated _ (shows insert.commitment row present free)
    · exact shows

private theorem Database.healthy_insertSlot (db : Database) (insert : SlotInsert) :
    (db.insertSlot insert).healthy = db.healthy := by
  unfold Database.insertSlot
  dsimp only
  split
  · rfl
  · split
    · rfl
    · rfl

namespace ServiceHealth

variable {health next : ServiceHealth} {event : HealthEvent}

/-- A write is not overtaken by a later one of the other value. With no write left to begin, a fresh row is not stamped
with an old sample. -/
def InOrder (health : ServiceHealth) : HealthEvent → Prop
  | .updateRuns position => ∀ healthy ∈ health.updates[position]?,
      ∀ earlier ∈ health.updates.take position, earlier = healthy
  | .insertCompletes position => ∀ insert ∈ health.inserts[position]?,
      health.db.slots insert.commitment = none → health.updates = [] → insert.healthy = health.isHealthy
  | _ => True

instance : DecidablePred health.InOrder
  | .updateRuns _ => inferInstanceAs (Decidable (∀ healthy ∈ _, ∀ earlier ∈ List.take _ _, earlier = healthy))
  | .insertCompletes _ => inferInstanceAs (Decidable (∀ insert ∈ _, _ → _ → _ = _))
  | .addReason _ | .removeReason _ | .sampleForInsert _ _ _ _ | .updateCommits => inferInstanceAs (Decidable True)

/-- The value that the decided writes leave: that of the last to begin, or of the one under way. -/
def leaves (health : ServiceHealth) : Option Bool :=
  health.updates.getLast?.or (health.updating.map HealthUpdate.healthy)

/-- The rows that an update under way will change when it commits. -/
def found (health : ServiceHealth) : List CommitmentLevel :=
  (health.updating.map HealthUpdate.found).getD []

/-- The writes leave the verdict. Once all have begun, the rows show it that the last of them has not found; with none
under way the flag does, too. -/
structure Mirrored (health : ServiceHealth) : Prop where
  last : ∀ healthy ∈ health.leaves, healthy = health.isHealthy
  rows : health.updates = [] → health.db.RowsShow health.isHealthy health.found
  flag : health.updates = [] → health.updating = none → health.db.healthy = health.isHealthy

theorem Mirrored.shown (mirrored : health.Mirrored) (begun : health.updates = []) (committed : health.updating = none) :
    health.db.Shows health.isHealthy := by
  refine ⟨mirrored.flag begun committed, fun commitment row present => mirrored.rows begun commitment row present ?_⟩
  rw [found, committed]
  exact List.not_mem_nil

theorem Mirrored.start {db : Database} (unhealthy : db.Shows false) : (new db).Mirrored where
  last _ member := absurd member (Option.not_mem_none _)
  rows _ commitment row present _ := unhealthy.rows commitment row present
  flag _ _ := unhealthy.flag

/-- A new decision is the last write. -/
theorem Mirrored.decided {reasons : Finset HealthReason} {healthy : Bool} (same : healthy = decide (reasons = ∅)) :
    ({ health with reasons, updates := health.updates ++ [healthy] } : ServiceHealth).Mirrored where
  last other member := by
    rw [leaves, List.getLast?_concat] at member
    cases member
    exact same
  rows none := by simp at none
  flag none := by simp at none

/-- A change of the reasons that keeps the verdict decides nothing. -/
theorem Mirrored.keep (mirrored : health.Mirrored) {reasons : Finset HealthReason}
    (same : decide (reasons = ∅) = health.isHealthy) : ({ health with reasons } : ServiceHealth).Mirrored := by
  have verdict : ({ health with reasons } : ServiceHealth).isHealthy = health.isHealthy := same
  constructor
  · exact fun healthy member => (mirrored.last healthy member).trans same.symm
  · rw [verdict]
    exact mirrored.rows
  · rw [verdict]
    exact mirrored.flag

theorem Mirrored.addReason (mirrored : health.Mirrored) (reason : HealthReason) : (health.addReason reason).Mirrored := by
  have nonempty : decide (insert reason health.reasons = ∅) = false :=
    decide_eq_false (Finset.insert_ne_empty reason health.reasons)
  unfold ServiceHealth.addReason
  by_cases present : reason ∈ health.reasons
  · have same : health.isHealthy = false := decide_eq_false (Finset.ne_empty_of_mem present)
    simp only [present, not_true_eq_false, decide_false, Bool.false_eq_true, if_false]
    exact mirrored.keep (nonempty.trans same.symm)
  · simp only [present, not_false_eq_true, decide_true, if_true]
    exact Mirrored.decided nonempty.symm

theorem Mirrored.removeReason (mirrored : health.Mirrored) (reason : HealthReason) :
    (health.removeReason reason).Mirrored := by
  unfold ServiceHealth.removeReason
  by_cases present : reason ∈ health.reasons
  · have unhealthy : health.isHealthy = false := decide_eq_false (Finset.ne_empty_of_mem present)
    by_cases empty : health.reasons.erase reason = ∅
    · simp only [present, empty, decide_true, Bool.and_self, if_true]
      exact Mirrored.decided rfl
    · simp only [present, empty, decide_true, decide_false, Bool.and_false, Bool.false_eq_true, if_false]
      exact mirrored.keep ((decide_eq_false empty).trans unhealthy.symm)
  · rw [Finset.erase_eq_of_notMem present]
    simp only [present, decide_false, Bool.false_and, Bool.false_eq_true, if_false]
    exact mirrored

/-- The write that begins is followed by a last one of the verdict, or was it. -/
theorem Mirrored.updateRuns (mirrored : health.Mirrored) {position : ℕ} {healthy : Bool}
    (present : health.updates[position]? = some healthy)
    (inOrder : ∀ earlier ∈ health.updates.take position, earlier = healthy) :
    ({ health with
      updates := health.updates.eraseIdx position
      updating := some ⟨healthy, health.db.present⟩ } : ServiceHealth).Mirrored := by
  obtain ⟨inside, got⟩ := List.getElem?_eq_some_iff.mp present
  have split : health.updates = health.updates.take position ++ healthy :: health.updates.drop (position + 1) := by
    rw [← got, ← List.drop_eq_getElem_cons inside, List.take_append_drop]
  have verdict : ∀ last ∈ (healthy :: health.updates.drop (position + 1)).getLast?, last = health.isHealthy := by
    intro last member
    refine mirrored.last last ?_
    rw [leaves, split, List.getLast?_append, member]
    rfl
  have left : health.updates.eraseIdx position =
      health.updates.take position ++ health.updates.drop (position + 1) := List.eraseIdx_eq_take_drop_succ ..
  constructor
  · intro last member
    rw [leaves] at member
    dsimp only at member
    rw [left, List.getLast?_append] at member
    cases later : health.updates.drop (position + 1) with
    | nil =>
      rw [later, List.getLast?_nil, Option.none_or] at member
      have same : last = healthy := by
        cases earlier : (health.updates.take position).getLast? with
        | none =>
          rw [earlier, Option.none_or] at member
          exact (Option.some.inj member).symm
        | some other =>
          rw [earlier, Option.some_or] at member
          exact inOrder last (List.mem_of_getLast? (earlier.trans member))
      rw [same]
      exact verdict healthy (by rw [later]; rfl)
    | cons first rest =>
      rw [later] at member verdict
      refine verdict last ?_
      rw [List.getLast?_cons_cons, List.getLast?_cons]
      rwa [List.getLast?_cons, Option.some_or, Option.some_or] at member
  -- The update finds every row.
  · intro _ commitment row inTable apart
    exact absurd (Database.mem_present.mpr (Option.isSome_of_eq_some inTable)) apart
  · intro _ committed
    cases committed

/-- The commit changes the rows that the update has found, so that all show the verdict. -/
theorem Mirrored.updateCommits (mirrored : health.Mirrored) {update : HealthUpdate}
    (running : health.updating = some update) :
    ({ health with
      updating := none
      db := health.db.updateServiceHealth update.healthy update.found } : ServiceHealth).Mirrored := by
  have shown : health.updates = [] →
      (health.db.updateServiceHealth update.healthy update.found).Shows health.isHealthy := by
    intro begun
    have same : update.healthy = health.isHealthy := mirrored.last update.healthy (by rw [leaves, begun, running]; rfl)
    have rows := mirrored.rows begun
    rw [found, running] at rows
    rw [← same] at rows ⊢
    exact rows.updateServiceHealth
  constructor
  · intro last member
    refine mirrored.last last ?_
    rw [leaves] at member ⊢
    rw [Option.map_none, Option.or_none] at member
    rw [member, Option.some_or]
    exact Option.mem_some_self last
  · exact fun begun commitment row present _ => (shown begun).rows commitment row present
  · exact fun begun _ => (shown begun).flag

theorem Mirrored.insertCompletes (mirrored : health.Mirrored) {position : ℕ} {insert : SlotInsert}
    (free : insert.commitment ∉ health.found)
    (fresh : health.db.slots insert.commitment = none → health.updates = [] → insert.healthy = health.isHealthy) :
    ({ health with
      inserts := health.inserts.eraseIdx position
      db := health.db.insertSlot insert } : ServiceHealth).Mirrored where
  last := mirrored.last
  rows begun := (mirrored.rows begun).insertSlot free fun absent => fresh absent begun
  flag begun committed := (health.db.healthy_insertSlot insert).trans (mirrored.flag begun committed)

theorem Mirrored.step (mirrored : health.Mirrored) (inOrder : health.InOrder event)
    (moves : health.step event = some next) : next.Mirrored := by
  cases event with
  | addReason reason =>
    cases moves
    exact mirrored.addReason reason
  | removeReason reason =>
    cases moves
    exact mirrored.removeReason reason
  | sampleForInsert slot blockTime blockhash commitment =>
    cases moves
    exact ⟨mirrored.last, mirrored.rows, mirrored.flag⟩
  | updateRuns position =>
    rw [ServiceHealth.step] at moves
    split at moves
    · contradiction
    · obtain ⟨healthy, present, rfl⟩ := Option.map_eq_some_iff.mp moves
      exact mirrored.updateRuns present (inOrder healthy present)
  | updateCommits =>
    obtain ⟨update, running, rfl⟩ := Option.map_eq_some_iff.mp moves
    exact mirrored.updateCommits running
  | insertCompletes position =>
    obtain ⟨insert, present, ran⟩ := Option.bind_eq_some_iff.mp moves
    split at ran
    · contradiction
    · next unlocked =>
      cases ran
      refine mirrored.insertCompletes (fun member => unlocked ?_) (inOrder insert present)
      rw [found] at member
      cases running : health.updating with
      | none =>
        rw [running] at member
        contradiction
      | some update =>
        rw [running] at member
        exact decide_eq_true member

/-- Over a database that starts unhealthy: whenever no update is under way, the flag and every row are healthy
exactly if there is no reason, as long as every write was in order. -/
theorem database_mirrors_reasons {db : Database} (unhealthy : db.Shows false) {events : List HealthEvent}
    {health : ServiceHealth} (run : Run (new db) step (fun _ health event => health.InOrder event) events health)
    (begun : health.updates = []) (committed : health.updating = none) :
    (health.db.healthy ↔ health.reasons = ∅) ∧
      ∀ commitment row, health.db.slots commitment = some row → (row.health ↔ health.reasons = ∅) := by
  have mirrored : health.Mirrored :=
    run.stateInvariant (.start unhealthy) fun _ _ _ _ mirrored inOrder moves => mirrored.step inOrder moves
  obtain ⟨flag, rows⟩ := mirrored.shown begun committed
  refine ⟨?_, fun commitment row present => ?_⟩
  · rw [flag, isHealthy, decide_eq_true_eq]
  · rw [rows commitment row present, isHealthy, decide_eq_true_eq]

/-- The database as its migrations leave it. -/
def migrated : Database := ⟨false, fun _ => none⟩

/-- The first row is inserted while the end of the startup is written, between the `UPDATE` and the `COMMIT`. -/
private def gapAfterStartup : List HealthEvent :=
  [.removeReason .startup, .updateRuns 0, .sampleForInsert 7 (some 1) none .confirmed, .insertCompletes 0,
    .updateCommits, .addReason .gapFill, .updateRuns 0, .updateCommits]

theorem database_mirrors_a_gap :
    ∃ health, Run (new migrated) step (fun _ health event => health.InOrder event) gapAfterStartup health ∧
      (health.db.healthy ↔ health.reasons = ∅) ∧
        ∀ commitment row, health.db.slots commitment = some row → (row.health ↔ health.reasons = ∅) := by
  have replayed : (Run.replay step (fun _ health event => health.InOrder event) [] (new migrated) gapAfterStartup).any
      (fun health => decide (health.updates = [] ∧ health.updating = none)) = true := by decide +kernel
  obtain ⟨health, ran, completed⟩ := (Option.any_eq_true _ _).mp replayed
  obtain ⟨begun, committed⟩ := of_decide_eq_true completed
  have unhealthy : migrated.Shows false := ⟨rfl, fun _ _ present => by cases present⟩
  exact ⟨health, Run.replayed ran, database_mirrors_reasons unhealthy (Run.replayed ran) begun committed⟩

/-- The startup reason goes and a gap opens; the two writes run the other way round. -/
private def overtaken : List HealthEvent :=
  [.removeReason .startup, .addReason .gapFill, .updateRuns 1, .updateCommits, .updateRuns 0, .updateCommits]

/-- The first row is stamped before the startup reason goes, and inserted between the `UPDATE` that then runs and its
`COMMIT`. -/
private def missed : List HealthEvent :=
  [.sampleForInsert 7 (some 1) none .confirmed, .removeReason .startup, .updateRuns 0, .insertCompletes 0,
    .updateCommits]

theorem overtaken_write_leaves_the_flag :
    (∃ health, Run (new migrated) step (fun _ _ _ => True) overtaken health ∧ health.updates = [] ∧
      health.updating = none ∧ health.inserts = [] ∧ ¬ (health.db.healthy ↔ health.reasons = ∅)) ∧
    ∃ health, Run (new migrated) step (fun _ _ _ => True) missed health ∧ health.updates = [] ∧
      health.updating = none ∧ health.inserts = [] ∧ health.reasons = ∅ ∧
        (health.db.slots .confirmed).map SlotRow.health = some false := by
  have overtook : (Run.replay step (fun _ _ _ => True) [] (new migrated) overtaken).any
      (fun health => decide (health.updates = [] ∧ health.updating = none ∧ health.inserts = [] ∧
        ¬ (health.db.healthy ↔ health.reasons = ∅))) = true := by decide +kernel
  have missing : (Run.replay step (fun _ _ _ => True) [] (new migrated) missed).any
      (fun health => decide (health.updates = [] ∧ health.updating = none ∧ health.inserts = [] ∧
        health.reasons = ∅ ∧ (health.db.slots .confirmed).map SlotRow.health = some false)) = true := by
    decide +kernel
  obtain ⟨first, ranFirst, wrong⟩ := (Option.any_eq_true _ _).mp overtook
  obtain ⟨second, ranSecond, stale⟩ := (Option.any_eq_true _ _).mp missing
  exact ⟨⟨first, Run.replayed ranFirst, of_decide_eq_true wrong⟩,
    ⟨second, Run.replayed ranSecond, of_decide_eq_true stale⟩⟩

end ServiceHealth

end Cloudbreak.Model.Health
