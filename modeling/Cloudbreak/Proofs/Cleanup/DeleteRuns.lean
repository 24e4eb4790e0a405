import Cloudbreak.Proofs.Cleanup.SavedBlocks

/-! # No delete changes a read

From a store that is sound, in every run whose blocks are saved whole and in time, what a query answers is the same
before and after each delete statement. A late block that brings another owner breaks this: its row stays behind under
an owner that the close of the account does not know, and the mask over it is deleted. So does a statement that fails:
the keys of the block are queued all the same.
-/

namespace Cloudbreak.Model.Cleanup

open Cloudbreak.ToMathlib
open SaveBlock (AccountRow AccountOwnerMap AccountOwnerItem PgOwnerPartitionsConfig Store AllVersions getAccountInfo
  isOwnerIncluded liveRow stores)
open Snapshot (AccountSelectorConfig)

variable {cfg : PgOwnerPartitionsConfig} {ownerMapEnabled : Bool} {programs : AccountSelectorConfig}
  {chunkSize maxChunkBytesData : ℕ} {cleaner next : Cleaner cfg} {event : CleanerEvent}

/-! ## Blocks in time -/

section Decidable

variable {writes : List Write} {latestSlot slot : ℕ} {store : Store cfg} {accounts : List AccountInfo}
  {account : AccountInfo}

instance (write : Write) : Decidable (IsLast writes latestSlot write) :=
  decidable_of_iff (write ∈ writes ∧ write.slot ≤ latestSlot ∧
      ∀ other ∈ writes, other.pubkey = write.pubkey → other.slot ≤ latestSlot → other.slot ≤ write.slot)
    ⟨fun all => ⟨all.1, all.2.1, all.2.2⟩, fun isLast => ⟨isLast.mem, isLast.reaches, isLast.last⟩⟩

instance : Decidable (After writes slot account) :=
  inferInstanceAs (Decidable (∀ write ∈ writes, write.pubkey = account.pubkey → write.slot < slot))

instance : Decidable (KeepsOwner ownerMapEnabled programs writes store slot account) :=
  decidable_of_iff (account.lamports ≠ 0 ∧
      (∀ write ∈ writes, write.pubkey = account.pubkey → write.slot ≠ slot) ∧
      (∀ write ∈ writes, IsLast writes slot write → write.pubkey = account.pubkey → ∀ row ∈ write.row,
        stores programs account = true ∧
          groupOf ownerMapEnabled row = groupOf ownerMapEnabled (liveRow slot account)) ∧
      (ownerMapEnabled = true →
        store.ownerMap.checkUpdatedAccountOwner account.pubkey account.owner slot = false) ∧
      (stores programs account = true → ∃ cover ∈ store.accounts.rows,
        groupOf ownerMapEnabled cover = groupOf ownerMapEnabled (liveRow slot account) ∧ slot < cover.slot ∧
          ∀ write ∈ writes, write.pubkey = account.pubkey → slot < write.slot → cover.slot ≤ write.slot))
    ⟨fun all => ⟨all.1, all.2.1, all.2.2.1, all.2.2.2.1, all.2.2.2.2⟩,
      fun keeps => ⟨keeps.live, keeps.apart, keeps.before, keeps.unmoved, keeps.covered⟩⟩

instance : Decidable (InTime ownerMapEnabled programs writes store slot accounts) :=
  inferInstanceAs (Decidable (∀ account ∈ accounts, _ ∨ _))

end Decidable

namespace CleanerEvent

def writes (ownerMapEnabled : Bool) (programs : AccountSelectorConfig) : CleanerEvent → List Write
  | .save slot _ accounts _ => blockWrites ownerMapEnabled programs slot accounts
  | _ => []

/-- A block has each account once, in time, and all of its statements succeed: the database executes them, and no two
rows have one key. -/
def SavedInTime (ownerMapEnabled : Bool) (programs : AccountSelectorConfig) (chunkSize maxChunkBytesData : ℕ)
    (writes : List Write) (cleaner : Cleaner cfg) : CleanerEvent → Prop
  | .save slot _ accounts executed =>
    (accounts.map AccountInfo.pubkey).Nodup ∧ InTime ownerMapEnabled programs writes cleaner.store slot accounts ∧
      executed.Perm
        (saveStatements ownerMapEnabled programs chunkSize maxChunkBytesData cleaner.store slot accounts) ∧
      ((cleaner.store.accounts.rows ++ executed.flatten).map cfg.primaryKey).Nodup
  | _ => True

instance (writes : List Write) :
    DecidablePred (SavedInTime ownerMapEnabled programs chunkSize maxChunkBytesData writes cleaner)
  | .save _ _ _ _ => inferInstanceAs (Decidable (_ ∧ _ ∧ _ ∧ _))
  | .finalize _ => .isTrue trivial
  | .startDrain _ => .isTrue trivial
  | .cleanSnapshotAccounts _ => .isTrue trivial
  | .cleanAccounts _ => .isTrue trivial
  | .endDrain => .isTrue trivial

def isDelete : CleanerEvent → Bool
  | .cleanSnapshotAccounts _ => true
  | .cleanAccounts _ => true
  | _ => false

end CleanerEvent

variable {writes : List Write}

/-! ## Starts -/

/-- The indexer before its first cleanup. -/
def Cleaner.start (store : Store cfg) (frontier : ℕ) : Cleaner cfg := ⟨store, ∅, frontier, [], none⟩

/-- A loaded snapshot: one live row for each account, and the owner map knows just these. -/
structure Loaded (programs : AccountSelectorConfig) (store : Store cfg) : Prop where
  accounts : store.accounts.rows = []
  distinct : (store.snapshotAccounts.map AccountRow.pubkey).Nodup
  live : ∀ row ∈ store.snapshotAccounts, row.lamports ≠ 0 ∧ isOwnerIncluded programs row.owner = true
  settled : store.ownerMap.changedOwners = ∅
  tracked : ∀ row ∈ store.snapshotAccounts, store.ownerMap.accounts.lookup row.pubkey = some ⟨row.owner, row.slot⟩
  known : ∀ pubkey item, store.ownerMap.accounts.lookup pubkey = some item →
    ∃ row ∈ store.snapshotAccounts, row.pubkey = pubkey ∧ row.slot = item.slot

/-- The writes that a snapshot stands for. -/
def snapshotWrites (store : Store cfg) : List Write :=
  store.snapshotAccounts.map fun row => ⟨row.pubkey, row.slot, some row⟩

theorem Loaded.sound {store : Store cfg} (loaded : Loaded programs store) (ownerMapEnabled : Bool) (frontier : ℕ) :
    Sound ownerMapEnabled programs (snapshotWrites store) (Cleaner.start store frontier) := by
  have one : ∀ row ∈ store.snapshotAccounts, ∀ other ∈ store.snapshotAccounts, row.pubkey = other.pubkey →
      row = other := fun row member other isOther same => List.inj_on_of_nodup_map loaded.distinct member isOther same
  have isWrite : ∀ row ∈ store.snapshotAccounts, (⟨row.pubkey, row.slot, some row⟩ : Write) ∈ snapshotWrites store :=
    fun row member => List.mem_map_of_mem member
  have shows : ∀ row ∈ store.snapshotAccounts, ∀ latestSlot, row.slot ≤ latestSlot →
      Shows (snapshotWrites store) latestSlot row := by
    refine fun row member latestSlot reaches => ⟨_, ⟨isWrite row member, reaches, fun other isOther same _ => ?_⟩, rfl⟩
    obtain ⟨otherRow, otherMember, rfl⟩ := List.mem_map.mp isOther
    rw [one otherRow otherMember row member same]
  constructor
  case distinct =>
    intro write first other second same _
    obtain ⟨row, member, rfl⟩ := List.mem_map.mp first
    obtain ⟨otherRow, otherMember, rfl⟩ := List.mem_map.mp second
    rw [one row member otherRow otherMember same]
  case own =>
    intro write first row held
    obtain ⟨row, member, rfl⟩ := List.mem_map.mp first
    obtain rfl := Option.some.inj held
    exact ⟨rfl, rfl, loaded.live row member⟩
  case written =>
    intro row member
    rw [Cleaner.tables, Cleaner.start, loaded.accounts, List.nil_append] at member
    exact ⟨_, isWrite row member, rfl, rfl, fun _ => rfl⟩
  case stored =>
    rintro latestSlot - row ⟨write, isLast, held⟩
    obtain ⟨row, member, rfl⟩ := List.mem_map.mp isLast.mem
    obtain rfl := Option.some.inj held
    exact List.mem_append_right _ member
  case accounts =>
    intro row member
    rw [Cleaner.start, loaded.accounts] at member
    contradiction
  case snapshotAccounts => exact fun row member _ latestSlot _ reaches => Or.inl (shows row member latestSlot reaches)
  case ownerMap =>
    refine fun _ => ⟨fun slot => ?_, fun pubkey item held => ?_, fun write isLast _ row held => ?_⟩
    · rw [Cleaner.start, loaded.settled]
      rfl
    · obtain ⟨row, member, same, slot⟩ := loaded.known pubkey item held
      exact ⟨_, isWrite row member, same, slot.ge⟩
    · obtain ⟨row, member, rfl⟩ := List.mem_map.mp isLast
      obtain rfl := Option.some.inj held
      exact ⟨_, loaded.tracked row member, rfl⟩
  case received =>
    intro slot record held
    cases held
  case entries =>
    intro item member
    contradiction
  case drained =>
    rintro _ ⟨⟩

theorem loaded_singleton (row : AccountRow) (live : row.lamports ≠ 0)
    (included : isOwnerIncluded programs row.owner = true) :
    @Loaded cfg programs ⟨⟨AList.insert row.pubkey ⟨row.owner, row.slot⟩ ∅, ∅⟩, ∅,
      [row]⟩ where
  accounts := rfl
  distinct := List.nodup_singleton _
  live := fun other member => by
    rw [List.mem_singleton.mp member]
    exact ⟨live, included⟩
  settled := rfl
  tracked := fun other member => by
    rw [List.mem_singleton.mp member, HashMap.lookup_insert, if_pos rfl]
  known := fun pubkey item held => by
    rw [HashMap.lookup_insert] at held
    split at held
    · next same =>
      rw [← Option.some.inj held]
      exact ⟨row, List.mem_singleton_self _, same.symm, rfl⟩
    · contradiction

/-! ## Steps -/

/-- What each event can do. -/
theorem step_cases (moves : cleaner.step ownerMapEnabled programs chunkSize maxChunkBytesData event = some next) :
    (∃ slot blockTime accounts executed saved, event = .save slot blockTime accounts executed ∧
      saveBlock ownerMapEnabled programs chunkSize maxChunkBytesData cleaner.store slot blockTime accounts executed =
        some saved ∧
      next = { cleaner with store := saved.1, received := cleaner.received.insert slot saved.2 }) ∨
    (∃ slot, event = .finalize slot ∧
      next = { cleaner with
        received := cleaner.received.erase slot
        frontier := max cleaner.frontier slot
        entries := cleaner.entries ++
          (keysForSlot ((cleaner.received.lookup slot).getD .empty) slot ownerMapEnabled).items }) ∨
    (∃ items, event = .startDrain items ∧ items ⊆ cleaner.entries ∧
      next = { cleaner with drain := some ⟨items, []⟩ }) ∨
    (event = .endDrain ∧ next = { cleaner with drain := none }) ∨
    (∃ chunk drain, event = .cleanSnapshotAccounts chunk ∧ cleaner.drain = some drain ∧ chunk ⊆ drain.items ∧
      next = { cleaner with
        store := { cleaner.store with snapshotAccounts := deleteRows chunk cleaner.store.snapshotAccounts }
        drain := some { drain with snapshotCleaned := drain.snapshotCleaned ++ chunk } }) ∨
    ∃ chunk drain, event = .cleanAccounts chunk ∧ cleaner.drain = some drain ∧
      drain.items ⊆ drain.snapshotCleaned ∧ chunk ⊆ drain.items ∧
      next = { cleaner with
        store := { cleaner.store with accounts := deleteKeyed chunk cleaner.store.accounts } } := by
  cases event with
  | save slot blockTime accounts executed =>
    obtain ⟨saved, saves, moved⟩ := Option.map_eq_some_iff.mp moves
    exact Or.inl ⟨slot, blockTime, accounts, executed, saved, rfl, saves, moved.symm⟩
  | finalize slot => exact Or.inr (Or.inl ⟨slot, rfl, (Option.some.inj moves).symm⟩)
  | startDrain items =>
    rw [Cleaner.step] at moves
    split at moves
    · next free => exact Or.inr (Or.inr (Or.inl ⟨items, rfl, free.2, (Option.some.inj moves).symm⟩))
    · contradiction
  | cleanSnapshotAccounts chunk =>
    rw [Cleaner.step] at moves
    split at moves
    · contradiction
    · next drain running =>
      split at moves
      · next taken =>
        exact Or.inr (Or.inr (Or.inr (Or.inr (Or.inl
          ⟨chunk, drain, rfl, running, taken, (Option.some.inj moves).symm⟩))))
      · contradiction
  | cleanAccounts chunk =>
    rw [Cleaner.step] at moves
    split at moves
    · contradiction
    · next drain running =>
      split at moves
      · next taken =>
        exact Or.inr (Or.inr (Or.inr (Or.inr (Or.inr
          ⟨chunk, drain, rfl, running, taken.1, taken.2, (Option.some.inj moves).symm⟩))))
      · contradiction
  | endDrain => exact Or.inr (Or.inr (Or.inr (Or.inl ⟨rfl, (Option.some.inj moves).symm⟩)))

theorem Sound.step (sound : Sound ownerMapEnabled programs writes cleaner)
    (inTime : event.SavedInTime ownerMapEnabled programs chunkSize maxChunkBytesData writes cleaner)
    (moves : cleaner.step ownerMapEnabled programs chunkSize maxChunkBytesData event = some next) :
    Sound ownerMapEnabled programs (writes ++ event.writes ownerMapEnabled programs) next := by
  obtain ⟨slot, blockTime, accounts, executed, saved, rfl, saves, rfl⟩ | quiet := step_cases moves
  · obtain ⟨distinct, inTime, whole, keyed⟩ := inTime
    exact sound.saveBlock inTime distinct whole keyed saves
  -- Every other event writes nothing.
  have kept : Sound ownerMapEnabled programs writes next ∧ event.writes ownerMapEnabled programs = [] := by
    obtain ⟨slot, rfl, rfl⟩ | ⟨items, rfl, queued, rfl⟩ | ⟨rfl, rfl⟩ | ⟨chunk, drain, rfl, running, taken, rfl⟩ |
      ⟨chunk, drain, rfl, running, cleaned, taken, rfl⟩ := quiet
    · exact ⟨sound.finalize slot, rfl⟩
    · refine ⟨sound.withDrain ?_, rfl⟩
      rintro _ ⟨⟩
      exact ⟨queued, rfl⟩
    · refine ⟨sound.withDrain ?_, rfl⟩
      rintro _ ⟨⟩
    · exact ⟨sound.cleanSnapshotAccounts running taken, rfl⟩
    · exact ⟨sound.cleanAccounts running cleaned taken, rfl⟩
  rw [kept.2, List.append_nil]
  exact kept.1

/-! ## Runs -/

variable (ownerMapEnabled programs chunkSize maxChunkBytesData writes) in
/-- Every block is saved whole and in time. -/
def InTimeRun (events : List CleanerEvent) (cleaner : Cleaner cfg) (event : CleanerEvent) : Prop :=
  event.SavedInTime ownerMapEnabled programs chunkSize maxChunkBytesData
    (writes ++ events.flatMap (CleanerEvent.writes ownerMapEnabled programs)) cleaner

instance (events : List CleanerEvent) (cleaner : Cleaner cfg) (event : CleanerEvent) :
    Decidable (InTimeRun ownerMapEnabled programs chunkSize maxChunkBytesData writes events cleaner event) :=
  inferInstanceAs (Decidable (event.SavedInTime _ _ _ _ _ cleaner))

theorem Sound.run {first : Cleaner cfg} (sound : Sound ownerMapEnabled programs writes first)
    {events : List CleanerEvent}
    (run : Run first (Cleaner.step ownerMapEnabled programs chunkSize maxChunkBytesData)
      (InTimeRun ownerMapEnabled programs chunkSize maxChunkBytesData writes) events cleaner) :
    Sound ownerMapEnabled programs (writes ++ events.flatMap (CleanerEvent.writes ownerMapEnabled programs))
      cleaner := by
  induction run with
  | start =>
    rw [List.flatMap_nil, List.append_nil]
    exact sound
  | step _ inTime moves ih =>
    have after := ih.step inTime moves
    rwa [List.flatMap_append, List.flatMap_singleton, ← List.append_assoc]

/-- A delete is no write, and finalizes nothing. -/
theorem of_isDelete (isDelete : event.isDelete = true)
    (moves : cleaner.step ownerMapEnabled programs chunkSize maxChunkBytesData event = some next) :
    event.writes ownerMapEnabled programs = [] ∧
      event.SavedInTime ownerMapEnabled programs chunkSize maxChunkBytesData writes cleaner ∧
      next.frontier = cleaner.frontier := by
  obtain ⟨_, _, _, _, _, rfl, -⟩ | ⟨_, rfl, -⟩ | ⟨_, rfl, -⟩ | ⟨rfl, -⟩ | ⟨_, _, rfl, -, -, rfl⟩ | ⟨_, _, rfl, -, -, -, rfl⟩ :=
    step_cases moves
  · cases isDelete
  · cases isDelete
  · cases isDelete
  · cases isDelete
  · exact ⟨rfl, trivial, rfl⟩
  · exact ⟨rfl, trivial, rfl⟩

/-- From a sound start, no delete statement changes what a query answers, in every run that saves each block whole and
in time, where the database returns a live row before the masks of its slot. -/
theorem deletes_change_no_read {store : Store cfg} {frontier : ℕ}
    (sound : Sound ownerMapEnabled programs writes (Cleaner.start store frontier)) {events : List CleanerEvent}
    (run : Run (Cleaner.start store frontier) (Cleaner.step ownerMapEnabled programs chunkSize maxChunkBytesData)
      (InTimeRun ownerMapEnabled programs chunkSize maxChunkBytesData writes) events cleaner)
    (isDelete : event.isDelete = true)
    (moves : cleaner.step ownerMapEnabled programs chunkSize maxChunkBytesData event = some next) (pubkey : Pubkey)
    {latestSlot : ℕ} (above : cleaner.frontier ≤ latestSlot) {before after : List AccountRow}
    (allBefore : AllVersions cleaner.tables pubkey latestSlot before)
    (allAfter : AllVersions next.tables pubkey latestSlot after) (liveBefore : LiveBeforeMasks before)
    (liveAfter : LiveBeforeMasks after) : getAccountInfo after = getAccountInfo before := by
  have reached := sound.run run
  obtain ⟨noWrites, inTime, sameFrontier⟩ := of_isDelete isDelete moves
  have kept := reached.step inTime moves
  rw [noWrites, List.append_nil] at kept
  refine Option.ext fun answer => ?_
  rw [kept.getAccountInfo (sameFrontier.trans_le above) allAfter liveAfter,
    reached.getAccountInfo above allBefore liveBefore]

section Examples

/-- An account that the snapshot has under program 5, since slot 1. -/
private def snapshot : Store ⟨true, false⟩ :=
  ⟨⟨AList.insert 1 ⟨5, 1⟩ ∅, ∅⟩, ∅, [⟨1, 5, 10, 1, []⟩]⟩

/-- It moves to program 6 at slot 2. A late block writes it under program 5 before that, and the old owner is cleaned
up. -/
private def moveEvents : List CleanerEvent :=
  [.save 3 none [⟨1, 6, 20, []⟩] [[⟨1, 5, 0, 3, []⟩], [⟨1, 6, 20, 3, []⟩]],
    .save 2 none [⟨1, 5, 15, []⟩] [[⟨1, 5, 15, 2, []⟩], []], .finalize 2, .finalize 3,
    .startDrain [(⟨some 5, 1⟩, 4), (⟨some 5, 1⟩, 2)], .cleanSnapshotAccounts [(⟨some 5, 1⟩, 2)],
    .cleanSnapshotAccounts [(⟨some 5, 1⟩, 4)]]

/-- It is closed at slot 3. The block of slot 2, where it moves to program 6, comes late. -/
private def lateEvents : List CleanerEvent :=
  [.save 3 none [⟨1, 0, 0, []⟩] [[⟨1, 5, 0, 3, []⟩]], .save 2 none [⟨1, 6, 20, []⟩] [[⟨1, 6, 20, 2, []⟩], []],
    .finalize 2, .finalize 3, .startDrain [(⟨some 5, 1⟩, 4)], .cleanSnapshotAccounts [(⟨some 5, 1⟩, 4)]]

private def ran (allowed : List CleanerEvent → Cleaner ⟨true, false⟩ → CleanerEvent → Prop)
    [∀ events state event, Decidable (allowed events state event)] (events : List CleanerEvent) :
    Option (Cleaner ⟨true, false⟩) :=
  Run.replay (Cleaner.step true ⟨[5, 6], []⟩ 1 1) allowed [] (Cleaner.start snapshot 1) events

/-- Both tables before the statements on `accounts`. -/
private def moved : Cleaner ⟨true, false⟩ :=
  (ran (InTimeRun true ⟨[5, 6], []⟩ 1 1 (snapshotWrites snapshot)) moveEvents).getD (.start snapshot 1)

/-- The mask and the rows that it hides are gone, and the account is read under program 6. -/
private def movedNext : Cleaner ⟨true, false⟩ :=
  (moved.step true ⟨[5, 6], []⟩ 1 1 (.cleanAccounts [(⟨some 5, 1⟩, 4)])).getD moved

theorem moved_account_is_read_without_its_mask :
    AllVersions moved.tables 1 3 [⟨1, 6, 20, 3, []⟩, ⟨1, 5, 0, 3, []⟩, ⟨1, 5, 15, 2, []⟩] ∧
      AllVersions movedNext.tables 1 3 [⟨1, 6, 20, 3, []⟩] ∧
      getAccountInfo [⟨1, 6, 20, 3, []⟩] =
        getAccountInfo [⟨1, 6, 20, 3, []⟩, ⟨1, 5, 0, 3, []⟩, ⟨1, 5, 15, 2, []⟩] := by
  have loaded : Loaded ⟨[5, 6], []⟩ snapshot := loaded_singleton ⟨1, 5, 10, 1, []⟩ (by decide) (by decide)
  have reached : ran (InTimeRun true ⟨[5, 6], []⟩ 1 1 (snapshotWrites snapshot)) moveEvents = some moved :=
    (Option.getD_of_ne_none (by decide +kernel) _).symm
  have deleted : moved.step true ⟨[5, 6], []⟩ 1 1 (.cleanAccounts [(⟨some 5, 1⟩, 4)]) = some movedNext :=
    (Option.getD_of_ne_none (by decide +kernel) _).symm
  have before : AllVersions moved.tables 1 3 [⟨1, 6, 20, 3, []⟩, ⟨1, 5, 0, 3, []⟩, ⟨1, 5, 15, 2, []⟩] :=
    ⟨by decide +kernel, by decide +kernel⟩
  have after : AllVersions movedNext.tables 1 3 [⟨1, 6, 20, 3, []⟩] := ⟨by decide +kernel, by decide +kernel⟩
  have liveBefore : LiveBeforeMasks [⟨1, 6, 20, 3, []⟩, ⟨1, 5, 0, 3, []⟩, ⟨1, 5, 15, 2, []⟩] := by
    unfold LiveBeforeMasks
    decide
  have liveAfter : LiveBeforeMasks [⟨1, 6, 20, 3, []⟩] := List.pairwise_singleton _ _
  exact ⟨before, after, deletes_change_no_read (loaded.sound true 1) (Run.replayed reached) rfl deleted 1
    (by decide +kernel) before after liveBefore liveAfter⟩

private def late : Cleaner ⟨true, false⟩ := (ran (fun _ _ _ => True) lateEvents).getD (.start snapshot 1)

/-- The last statement of the drain takes the mask. -/
private def lateNext : Cleaner ⟨true, false⟩ :=
  (late.step true ⟨[5, 6], []⟩ 1 1 (.cleanAccounts [(⟨some 5, 1⟩, 4)])).getD late

theorem late_block_is_resurrected :
    ∃ events cleaner next, Run (Cleaner.start snapshot 1) (Cleaner.step true ⟨[5, 6], []⟩ 1 1) (fun _ _ _ => True) events
      cleaner ∧ cleaner.step true ⟨[5, 6], []⟩ 1 1 (.cleanAccounts [(⟨some 5, 1⟩, 4)]) = some next ∧
      cleaner.frontier = 3 ∧ ∃ before after, AllVersions cleaner.tables 1 3 before ∧
        AllVersions next.tables 1 3 after ∧ getAccountInfo before = none ∧
        getAccountInfo after = some ⟨1, 6, 20, 2, []⟩ := by
  have reached : ran (fun _ _ _ => True) lateEvents = some late := (Option.getD_of_ne_none (by decide +kernel) _).symm
  have deleted : late.step true ⟨[5, 6], []⟩ 1 1 (.cleanAccounts [(⟨some 5, 1⟩, 4)]) = some lateNext :=
    (Option.getD_of_ne_none (by decide +kernel) _).symm
  have before : AllVersions late.tables 1 3 [⟨1, 5, 0, 3, []⟩, ⟨1, 6, 20, 2, []⟩] :=
    ⟨by decide +kernel, by decide +kernel⟩
  have after : AllVersions lateNext.tables 1 3 [⟨1, 6, 20, 2, []⟩] := ⟨by decide +kernel, by decide +kernel⟩
  exact ⟨lateEvents, late, lateNext, Run.replayed reached, deleted, by decide +kernel, _, _, before, after, by decide,
    by decide⟩

end Examples

end Cloudbreak.Model.Cleanup
