import Cloudbreak.Model.Cleanup.Deletes
import Cloudbreak.Proofs.Filters.PatternId
import Cloudbreak.Proofs.SaveBlock.GapFill
import Cloudbreak.ToMathlib.Positional

/-! # What cleanup leaves to read

A row with lamports that is no longer its account's newest write is covered by a newer row that the same cleanup keys
hit. A delete that takes the cover takes the covered row with it, or finds it gone already from the other table, and
no key reaches the newest write. So a delete changes no read, as long as every account is written in slot order, or
late under the owner that it keeps.
-/

namespace Cloudbreak.Model.Cleanup

open Cloudbreak.ToMathlib
open SaveBlock (AccountRow AccountOwnerMap ChangedOwner PgOwnerPartitionsConfig Store Saving liveRow stores
  isOwnerIncluded AllVersions getAccountInfo)
open Snapshot (AccountSelectorConfig)

variable {cfg : PgOwnerPartitionsConfig} {ownerMapEnabled : Bool} {programs : AccountSelectorConfig}
  {cleaner next : Cleaner cfg}

/-! ## Writes -/

/-- One write of an account, with the row that a query should show of it. -/
structure Write where
  pubkey : Pubkey
  slot : ℕ
  row : Option AccountRow
deriving DecidableEq

/-- The newest write of its account up to a slot. -/
structure IsLast (writes : List Write) (latestSlot : ℕ) (write : Write) : Prop where
  mem : write ∈ writes
  reaches : write.slot ≤ latestSlot
  last : ∀ other ∈ writes, other.pubkey = write.pubkey → other.slot ≤ latestSlot → other.slot ≤ write.slot

/-- A row is the one that the newest write shows. -/
def Shows (writes : List Write) (latestSlot : ℕ) (row : AccountRow) : Prop :=
  ∃ write, IsLast writes latestSlot write ∧ write.row = some row

/-- What the cleanup keys of a row tell apart. -/
def groupOf (ownerMapEnabled : Bool) (row : AccountRow) : CleanupKey :=
  ⟨if ownerMapEnabled then some row.owner else none, row.pubkey⟩

private theorem hits_congr {key : CleanupKey} {row other : AccountRow} (form : key.owner.isSome = ownerMapEnabled)
    (same : groupOf ownerMapEnabled row = groupOf ownerMapEnabled other) : key.hits row = key.hits other := by
  obtain ⟨owner, pubkey⟩ := key
  have pubkeys : row.pubkey = other.pubkey := congrArg CleanupKey.pubkey same
  rw [CleanupKey.hits, CleanupKey.hits, pubkeys]
  cases owner with
  | none => rfl
  | some owner =>
    obtain rfl : ownerMapEnabled = true := form.symm
    have owners : row.owner = other.owner := Option.some.inj (congrArg CleanupKey.owner same)
    rw [owners]

private theorem pubkey_of_hits {key : CleanupKey} {row : AccountRow} (hit : key.hits row = true) :
    row.pubkey = key.pubkey :=
  of_decide_eq_true (Bool.and_eq_true_iff.mp hit).1

/-- A newer row that every key which reaches it hits together with the older one. -/
structure Covers (ownerMapEnabled : Bool) (latestSlot : ℕ) (row cover : AccountRow) : Prop where
  group : groupOf ownerMapEnabled cover = groupOf ownerMapEnabled row
  newer : row.slot < cover.slot
  reaches : cover.slot ≤ latestSlot

/-- Rows with lamports are shown or covered, for every slot from the frontier on. -/
def Covered (ownerMapEnabled : Bool) (writes : List Write) (frontier : ℕ) (rows covers : List AccountRow) : Prop :=
  ∀ row ∈ rows, row.lamports ≠ 0 → ∀ latestSlot ≥ frontier, row.slot ≤ latestSlot →
    Shows writes latestSlot row ∨ ∃ cover ∈ covers, Covers ownerMapEnabled latestSlot row cover

/-- A key comes from a write that is finalized: it ends at the write, or takes it in without hitting its row. -/
structure EntrySound (ownerMapEnabled : Bool) (writes : List Write) (frontier : ℕ) (item : CleanupKey × ℕ) : Prop where
  form : item.1.owner.isSome = ownerMapEnabled
  source : ∃ write ∈ writes, write.pubkey = item.1.pubkey ∧ write.slot ≤ frontier ∧
    (item.2 ≤ write.slot ∨ item.2 = write.slot + 1 ∧ ∀ row ∈ write.row, item.1.hits row = false)

/-- The owner map knows the owner of every account whose newest write is shown, and nothing newer. -/
structure MapSound (ownerMap : AccountOwnerMap) (writes : List Write) : Prop where
  settled : ∀ slot, ownerMap.changedOwners.lookup slot = none
  known : ∀ pubkey item, ownerMap.accounts.lookup pubkey = some item →
    ∃ write ∈ writes, write.pubkey = pubkey ∧ item.slot ≤ write.slot
  tracked : ∀ write ∈ writes, (∀ other ∈ writes, other.pubkey = write.pubkey → other.slot ≤ write.slot) →
    ∀ row ∈ write.row, ∃ item, ownerMap.accounts.lookup write.pubkey = some item ∧ item.owner = row.owner

/-- The tables hold what the writes call for, as far as cleanup may have left it. -/
structure Sound (ownerMapEnabled : Bool) (programs : AccountSelectorConfig) (writes : List Write)
    (cleaner : Cleaner cfg) : Prop where
  distinct : ∀ write ∈ writes, ∀ other ∈ writes, write.pubkey = other.pubkey → write.slot = other.slot → write = other
  own : ∀ write ∈ writes, ∀ row ∈ write.row, row.pubkey = write.pubkey ∧ row.slot = write.slot ∧ row.lamports ≠ 0 ∧
    isOwnerIncluded programs row.owner = true
  written : ∀ row ∈ cleaner.tables, ∃ write ∈ writes, write.pubkey = row.pubkey ∧ write.slot = row.slot ∧
    (row.lamports ≠ 0 → write.row = some row)
  stored : ∀ latestSlot ≥ cleaner.frontier, ∀ row, Shows writes latestSlot row → row ∈ cleaner.tables
  accounts : Covered ownerMapEnabled writes cleaner.frontier cleaner.store.accounts.rows cleaner.store.accounts.rows
  snapshotAccounts : Covered ownerMapEnabled writes cleaner.frontier cleaner.store.snapshotAccounts cleaner.tables
  ownerMap : ownerMapEnabled = true → MapSound cleaner.store.ownerMap writes
  received : ∀ slot record, cleaner.received.lookup slot = some record →
    ∀ item ∈ (keysForSlot record slot ownerMapEnabled).items, EntrySound ownerMapEnabled writes slot item
  entries : ∀ item ∈ cleaner.entries, EntrySound ownerMapEnabled writes cleaner.frontier item
  drained : ∀ drain ∈ cleaner.drain, drain.items ⊆ cleaner.entries ∧ ∀ item ∈ drain.snapshotCleaned,
    ∀ row ∈ cleaner.store.snapshotAccounts, item.1.hits row = true → item.2 ≤ row.slot

/-! ## Deletes -/

section Delete

variable {writes : List Write} {items : List (CleanupKey × ℕ)} {rows covers : List AccountRow} {frontier : ℕ}

theorem mem_deleteRows {row : AccountRow} :
    row ∈ deleteRows items rows ↔ row ∈ rows ∧ ∀ item ∈ items, item.1.hits row = true → item.2 ≤ row.slot := by
  rw [deleteRows, List.mem_filter, Bool.not_eq_true', List.any_eq_false]
  refine and_congr_right fun _ => forall₂_congr fun item _ => ?_
  rw [Bool.and_eq_true_iff, decide_eq_true_iff, not_and, not_lt]

theorem deleteRows_subset (items : List (CleanupKey × ℕ)) (rows : List AccountRow) : deleteRows items rows ⊆ rows :=
  List.filter_subset_self _

/-- Rows that lose no cover that they still need stay covered. -/
theorem Covered.sub (covered : Covered ownerMapEnabled writes frontier rows covers) {left leftCovers : List AccountRow}
    (sub : left ⊆ rows)
    (kept : ∀ row ∈ left, ∀ cover ∈ covers, groupOf ownerMapEnabled cover = groupOf ownerMapEnabled row →
      row.slot < cover.slot → cover ∈ leftCovers) : Covered ownerMapEnabled writes frontier left leftCovers := by
  intro row member positive latestSlot above reaches
  rcases covered row (sub member) positive latestSlot above reaches with shown | ⟨cover, present, covers⟩
  · exact Or.inl shown
  · exact Or.inr ⟨cover, kept row member cover present covers.group covers.newer, covers⟩

/-- A statement that takes a cover takes what it covers in the same table. -/
theorem mem_deleteRows_of_covered (forms : ∀ item ∈ items, item.1.owner.isSome = ownerMapEnabled)
    {row cover : AccountRow} (left : row ∈ deleteRows items rows) (present : cover ∈ rows)
    (group : groupOf ownerMapEnabled cover = groupOf ownerMapEnabled row) (newer : row.slot < cover.slot) :
    cover ∈ deleteRows items rows := by
  refine mem_deleteRows.mpr ⟨present, fun item member hit => ?_⟩
  rw [hits_congr (forms item member) group] at hit
  exact ((mem_deleteRows.mp left).2 item member hit).trans newer.le

/-- No key reaches the row that the newest write shows. -/
theorem Sound.le_slot_of_shows (sound : Sound ownerMapEnabled programs writes cleaner) {latestSlot : ℕ}
    (above : cleaner.frontier ≤ latestSlot) {row : AccountRow} (shown : Shows writes latestSlot row)
    {item : CleanupKey × ℕ} (member : item ∈ cleaner.entries) (hit : item.1.hits row = true) : item.2 ≤ row.slot := by
  obtain ⟨write, isLast, shows⟩ := shown
  obtain ⟨pubkey, slot, -, -⟩ := sound.own write isLast.mem row shows
  obtain ⟨source, isWrite, sourcePubkey, finalized, ends⟩ := (sound.entries item member).source
  have same : source.pubkey = write.pubkey := sourcePubkey.trans ((pubkey_of_hits hit).symm.trans pubkey)
  have older := isLast.last source isWrite same (finalized.trans above)
  rcases ends with below | ⟨past, misses⟩
  · omega
  · by_contra reaches
    have atSlot : source.slot = write.slot := by omega
    obtain rfl := sound.distinct source isWrite write isLast.mem same atSlot
    rw [misses row shows] at hit
    cases hit

theorem Sound.forms (sound : Sound ownerMapEnabled programs writes cleaner) (chunk : items ⊆ cleaner.entries) :
    ∀ item ∈ items, item.1.owner.isSome = ownerMapEnabled := fun item member =>
  (sound.entries item (chunk member)).form

theorem Sound.cleanSnapshotAccounts (sound : Sound ownerMapEnabled programs writes cleaner) {drain : Drain}
    (running : cleaner.drain = some drain) (chunk : items ⊆ drain.items) :
    Sound ownerMapEnabled programs writes
      { cleaner with
        store := { cleaner.store with snapshotAccounts := deleteRows items cleaner.store.snapshotAccounts }
        drain := some { drain with snapshotCleaned := drain.snapshotCleaned ++ items } } := by
  have queued : items ⊆ cleaner.entries := List.Subset.trans chunk (sound.drained drain running).1
  have fewer : deleteRows items cleaner.store.snapshotAccounts ⊆ cleaner.store.snapshotAccounts := deleteRows_subset ..
  refine ⟨sound.distinct, sound.own, fun row member => ?_, fun latestSlot above row shown => ?_, sound.accounts,
    sound.snapshotAccounts.sub fewer fun row left cover present group newer => ?_, sound.ownerMap, sound.received,
    sound.entries, ?_⟩
  · refine sound.written row ?_
    exact (List.mem_append.mp member).elim (List.mem_append_left _) fun inSnapshot =>
      List.mem_append_right _ (fewer inSnapshot)
  · rcases List.mem_append.mp (sound.stored latestSlot above row shown) with inAccounts | inSnapshot
    · exact List.mem_append_left _ inAccounts
    · refine List.mem_append_right _ (mem_deleteRows.mpr ⟨inSnapshot, fun item member hit => ?_⟩)
      exact sound.le_slot_of_shows above shown (queued member) hit
  · rcases List.mem_append.mp present with inAccounts | inSnapshot
    · exact List.mem_append_left _ inAccounts
    · exact List.mem_append_right _ (mem_deleteRows_of_covered (sound.forms queued) left inSnapshot group newer)
  · rintro _ ⟨⟩
    refine ⟨(sound.drained drain running).1, fun item member row left hit => ?_⟩
    rcases List.mem_append.mp member with before | now
    · exact (sound.drained drain running).2 item before row (fewer left) hit
    · exact (mem_deleteRows.mp left).2 item now hit

theorem Sound.cleanAccounts (sound : Sound ownerMapEnabled programs writes cleaner) {drain : Drain}
    (running : cleaner.drain = some drain) (cleaned : drain.items ⊆ drain.snapshotCleaned)
    (chunk : items ⊆ drain.items) :
    Sound ownerMapEnabled programs writes
      { cleaner with store := { cleaner.store with accounts := deleteKeyed items cleaner.store.accounts } } := by
  have queued : items ⊆ cleaner.entries := List.Subset.trans chunk (sound.drained drain running).1
  have fewer : deleteRows items cleaner.store.accounts.rows ⊆ cleaner.store.accounts.rows := deleteRows_subset ..
  refine ⟨sound.distinct, sound.own, fun row member => ?_, fun latestSlot above row shown => ?_,
    sound.accounts.sub fewer fun row left cover present group newer =>
      mem_deleteRows_of_covered (sound.forms queued) left present group newer,
    sound.snapshotAccounts.sub (List.Subset.refl _) fun row left cover present group newer => ?_, sound.ownerMap,
    sound.received, sound.entries, sound.drained⟩
  · refine sound.written row ?_
    exact (List.mem_append.mp member).elim (fun inAccounts => List.mem_append_left _ (fewer inAccounts))
      (List.mem_append_right _)
  · rcases List.mem_append.mp (sound.stored latestSlot above row shown) with inAccounts | inSnapshot
    · refine List.mem_append_left _ (mem_deleteRows.mpr ⟨inAccounts, fun item member hit => ?_⟩)
      exact sound.le_slot_of_shows above shown (queued member) hit
    · exact List.mem_append_right _ inSnapshot
  · rcases List.mem_append.mp present with inAccounts | inSnapshot
    · refine List.mem_append_left _ (mem_deleteRows.mpr ⟨inAccounts, fun item member hit => ?_⟩)
      -- The drain has cleaned the other table of all rows that the key reaches.
      rw [hits_congr (sound.forms queued item member) group] at hit
      exact ((sound.drained drain running).2 item (cleaned (chunk member)) row left hit).trans newer.le
    · exact List.mem_append_right _ inSnapshot

/-! ## Finalized slots and drains -/

theorem Covered.mono (covered : Covered ownerMapEnabled writes frontier rows covers) {later : ℕ}
    (above : frontier ≤ later) : Covered ownerMapEnabled writes later rows covers := fun row member positive latestSlot
    reaches => covered row member positive latestSlot (above.trans reaches)

theorem EntrySound.mono {item : CleanupKey × ℕ} (sound : EntrySound ownerMapEnabled writes frontier item) {later : ℕ}
    (above : frontier ≤ later) : EntrySound ownerMapEnabled writes later item := by
  obtain ⟨form, write, member, same, below, ends⟩ := sound
  exact ⟨form, write, member, same, below.trans above, ends⟩

private theorem items_empty (slot : ℕ) (ownerMapEnabled : Bool) :
    (keysForSlot .empty slot ownerMapEnabled).items = [] := by
  cases ownerMapEnabled with
  | true => rfl
  | false => rfl

theorem Sound.finalize (sound : Sound ownerMapEnabled programs writes cleaner) (slot : ℕ) :
    Sound ownerMapEnabled programs writes
      { cleaner with
        received := cleaner.received.erase slot
        frontier := max cleaner.frontier slot
        entries := cleaner.entries ++
          (keysForSlot ((cleaner.received.lookup slot).getD .empty) slot ownerMapEnabled).items } := by
  have above : cleaner.frontier ≤ max cleaner.frontier slot := le_max_left ..
  refine ⟨sound.distinct, sound.own, sound.written, fun latestSlot reaches =>
    sound.stored latestSlot (above.trans reaches), sound.accounts.mono above, sound.snapshotAccounts.mono above,
    sound.ownerMap, fun other record held => ?_, fun item member => ?_, fun drain running => ?_⟩
  · rw [HashMap.lookup_erase] at held
    split at held
    · cases held
    · exact sound.received other record held
  · rcases List.mem_append.mp member with before | now
    · exact (sound.entries item before).mono above
    · cases held : cleaner.received.lookup slot with
      | none =>
        rw [held, Option.getD_none, items_empty] at now
        contradiction
      | some record =>
        rw [held, Option.getD_some] at now
        exact (sound.received slot record held item now).mono (le_max_right ..)
  · exact ⟨List.subset_append_of_subset_left _ (sound.drained drain running).1, (sound.drained drain running).2⟩

theorem Sound.withDrain (sound : Sound ownerMapEnabled programs writes cleaner) {drain : Option Drain}
    (fresh : ∀ running ∈ drain, running.items ⊆ cleaner.entries ∧ running.snapshotCleaned = []) :
    Sound ownerMapEnabled programs writes { cleaner with drain } := by
  refine ⟨sound.distinct, sound.own, sound.written, sound.stored, sound.accounts, sound.snapshotAccounts,
    sound.ownerMap, sound.received, sound.entries, fun running held => ⟨(fresh running held).1, fun item member => ?_⟩⟩
  rw [(fresh running held).2] at member
  contradiction

end Delete

/-! ## Reads -/

/-- No mask stands before a live row of its slot. -/
def LiveBeforeMasks (versions : List AccountRow) : Prop :=
  versions.Pairwise fun first second => first.slot = second.slot → first.lamports = 0 → second.lamports = 0

theorem Sound.shown_or_covered {writes : List Write} (sound : Sound ownerMapEnabled programs writes cleaner)
    {row : AccountRow} (present : row ∈ cleaner.tables) (live : row.lamports ≠ 0) {latestSlot : ℕ}
    (above : cleaner.frontier ≤ latestSlot) (reaches : row.slot ≤ latestSlot) :
    Shows writes latestSlot row ∨ ∃ cover ∈ cleaner.tables, Covers ownerMapEnabled latestSlot row cover := by
  rcases List.mem_append.mp present with inAccounts | inSnapshot
  · exact (sound.accounts row inAccounts live latestSlot above reaches).imp id fun ⟨cover, isCover, covers⟩ =>
      ⟨cover, List.mem_append_left _ isCover, covers⟩
  · exact sound.snapshotAccounts row inSnapshot live latestSlot above reaches

/-- A query for an account answers with the row that its newest write shows, or with none. -/
theorem Sound.getAccountInfo {writes : List Write} (sound : Sound ownerMapEnabled programs writes cleaner)
    {pubkey : Pubkey} {latestSlot : ℕ} (above : cleaner.frontier ≤ latestSlot) {versions : List AccountRow}
    (all : AllVersions cleaner.tables pubkey latestSlot versions) (ordered : LiveBeforeMasks versions)
    (answer : AccountRow) :
    getAccountInfo versions = some answer ↔ answer.pubkey = pubkey ∧ Shows writes latestSlot answer := by
  have inTables : ∀ row ∈ versions, row ∈ cleaner.tables ∧ row.pubkey = pubkey ∧ row.slot ≤ latestSlot :=
    fun row member => by
      obtain ⟨present, wanted⟩ := List.mem_filter.mp (all.rows.subset member)
      exact ⟨present, of_decide_eq_true wanted⟩
  constructor
  · intro found
    obtain ⟨head, positive⟩ := Option.filter_eq_some_iff.mp found
    obtain ⟨rest, rfl⟩ : ∃ rest, versions = answer :: rest := by
      cases versions with
      | nil => cases head
      | cons first rest => exact ⟨rest, by rw [Option.some.inj head]⟩
    obtain ⟨present, own, reaches⟩ := inTables answer List.mem_cons_self
    refine ⟨own, ?_⟩
    have newest : ∀ row ∈ cleaner.tables, row.pubkey = pubkey → row.slot ≤ latestSlot → row.slot ≤ answer.slot := by
      intro row isRow same below
      have version := all.rows.symm.subset (List.mem_filter.mpr ⟨isRow, decide_eq_true ⟨same, below⟩⟩)
      rcases List.mem_cons.mp version with rfl | later
      · exact le_rfl
      · exact (List.pairwise_cons.mp all.descending).1 row later
    have live : answer.lamports ≠ 0 := Nat.ne_of_gt (of_decide_eq_true positive)
    rcases sound.shown_or_covered present live above reaches with shown | ⟨cover, isCover, covers⟩
    · exact shown
    · have same : cover.pubkey = answer.pubkey := congrArg CleanupKey.pubkey covers.group
      exact absurd (newest cover isCover (same.trans own) covers.reaches) (not_le.mpr covers.newer)
  · rintro ⟨own, shown⟩
    have present := sound.stored latestSlot above answer shown
    obtain ⟨write, isLast, shows⟩ := shown
    obtain ⟨pubkeys, slots, live, -⟩ := sound.own write isLast.mem answer shows
    have version : answer ∈ versions := all.rows.symm.subset
      (List.mem_filter.mpr ⟨present, decide_eq_true ⟨own, slots ▸ isLast.reaches⟩⟩)
    -- Every version is of a write up to the newest one, and live at its slot only as its row.
    have versionsOf : ∀ row ∈ versions, row.slot ≤ answer.slot ∧ (row.slot = answer.slot → row.lamports ≠ 0 →
        row = answer) := by
      intro row member
      obtain ⟨isRow, same, below⟩ := inTables row member
      obtain ⟨source, isWrite, sourcePubkey, sourceSlot, sourceRow⟩ := sound.written row isRow
      have sameKey : source.pubkey = write.pubkey := sourcePubkey.trans (same.trans (own.symm.trans pubkeys))
      have older := isLast.last source isWrite sameKey (sourceSlot ▸ below)
      refine ⟨by omega, fun atSlot positive => ?_⟩
      obtain rfl := sound.distinct source isWrite write isLast.mem sameKey (by omega)
      exact Option.some.inj ((sourceRow positive).symm.trans shows)
    cases versions with
    | nil => contradiction
    | cons first rest =>
      have head : first = answer := by
        rcases List.mem_cons.mp version with same | later
        · exact same.symm
        · have atSlot : first.slot = answer.slot :=
            le_antisymm (versionsOf first List.mem_cons_self).1 ((List.pairwise_cons.mp all.descending).1 answer later)
          refine (versionsOf first List.mem_cons_self).2 atSlot fun closed => live ?_
          exact (List.pairwise_cons.mp ordered).1 answer later atSlot closed
      rw [head, SaveBlock.getAccountInfo, List.head?_cons]
      exact if_pos (decide_eq_true (Nat.pos_of_ne_zero live))

/-! ## Blocks -/

/-- The writes that a block's tables should tell: without the owner map, an account that leaves the included programs
goes unnoticed. -/
def noted (ownerMapEnabled : Bool) (programs : AccountSelectorConfig) (account : AccountInfo) : Bool :=
  ownerMapEnabled || decide (account.lamports = 0) || stores programs account

def writeOf (programs : AccountSelectorConfig) (slot : ℕ) (account : AccountInfo) : Write :=
  ⟨account.pubkey, slot, if stores programs account then some (liveRow slot account) else none⟩

def blockWrites (ownerMapEnabled : Bool) (programs : AccountSelectorConfig) (slot : ℕ) (accounts : List AccountInfo) :
    List Write :=
  (accounts.filter (noted ownerMapEnabled programs)).map (writeOf programs slot)

section Save

variable {writes : List Write} {slot : ℕ} {accounts : List AccountInfo}

theorem noted_of_stores {account : AccountInfo} (stored : stores programs account = true) :
    noted ownerMapEnabled programs account = true := by
  rw [noted, stored, Bool.or_true]

private theorem EntrySound.of_subset {item : CleanupKey × ℕ} {frontier : ℕ} {others : List Write}
    (sound : EntrySound ownerMapEnabled writes frontier item) (sub : writes ⊆ others) :
    EntrySound ownerMapEnabled others frontier item := by
  obtain ⟨form, write, member, rest⟩ := sound
  exact ⟨form, write, sub member, rest⟩

/-- Every earlier write of the account is of a lower slot. -/
def After (writes : List Write) (slot : ℕ) (account : AccountInfo) : Prop :=
  ∀ write ∈ writes, write.pubkey = account.pubkey → write.slot < slot

/-- A late write that keeps the owner: it is no close, the account is not shown under another owner at its slot, the
owner map does not take it for a move, and what it stores is covered by a row of the same owner from the next write
on. -/
structure KeepsOwner (ownerMapEnabled : Bool) (programs : AccountSelectorConfig) (writes : List Write)
    (store : Store cfg) (slot : ℕ) (account : AccountInfo) : Prop where
  live : account.lamports ≠ 0
  apart : ∀ write ∈ writes, write.pubkey = account.pubkey → write.slot ≠ slot
  before : ∀ write ∈ writes, IsLast writes slot write → write.pubkey = account.pubkey → ∀ row ∈ write.row,
    stores programs account = true ∧ groupOf ownerMapEnabled row = groupOf ownerMapEnabled (liveRow slot account)
  unmoved : ownerMapEnabled = true →
    store.ownerMap.checkUpdatedAccountOwner account.pubkey account.owner slot = false
  covered : stores programs account = true → ∃ cover ∈ store.accounts.rows,
    groupOf ownerMapEnabled cover = groupOf ownerMapEnabled (liveRow slot account) ∧ slot < cover.slot ∧
      ∀ write ∈ writes, write.pubkey = account.pubkey → slot < write.slot → cover.slot ≤ write.slot

/-- Each write of the block is the newest of its account, or late and keeps the owner. -/
def InTime (ownerMapEnabled : Bool) (programs : AccountSelectorConfig) (writes : List Write) (store : Store cfg)
    (slot : ℕ) (accounts : List AccountInfo) : Prop :=
  ∀ account ∈ accounts, After writes slot account ∨ KeepsOwner ownerMapEnabled programs writes store slot account

theorem InTime.apart {store : Store cfg} (inTime : InTime ownerMapEnabled programs writes store slot accounts)
    {account : AccountInfo} (member : account ∈ accounts) {write : Write} (isWrite : write ∈ writes)
    (same : write.pubkey = account.pubkey) : write.slot ≠ slot :=
  (inTime account member).elim (fun after => (after write isWrite same).ne)
    fun keeps => keeps.apart write isWrite same

theorem mem_blockWrites {write : Write} :
    write ∈ blockWrites ownerMapEnabled programs slot accounts ↔
      ∃ account ∈ accounts, noted ownerMapEnabled programs account = true ∧ writeOf programs slot account = write := by
  rw [blockWrites, List.mem_map]
  simp only [List.mem_filter, and_assoc]

theorem row_writeOf {account : AccountInfo} {row : AccountRow} :
    row ∈ (writeOf programs slot account).row ↔ stores programs account = true ∧ row = liveRow slot account := by
  rw [writeOf]
  dsimp only
  rw [Option.mem_def, Option.ite_none_right_eq_some, Option.some.injEq, eq_comm (a := liveRow slot account)]

/-- A block's own write of an account is the newest where no earlier one stands between. -/
theorem isLast_new {account : AccountInfo} (member : account ∈ accounts)
    (isNoted : noted ownerMapEnabled programs account = true) {latestSlot : ℕ} (reaches : slot ≤ latestSlot)
    (newest : ∀ write ∈ writes, write.pubkey = account.pubkey → write.slot ≤ latestSlot → write.slot ≤ slot) :
    IsLast (writes ++ blockWrites ownerMapEnabled programs slot accounts) latestSlot
      (writeOf programs slot account) := by
  refine ⟨List.mem_append_right _ (mem_blockWrites.mpr ⟨account, member, isNoted, rfl⟩), reaches,
    fun other isWrite same below => ?_⟩
  rcases List.mem_append.mp isWrite with before | now
  · exact newest other before same below
  · obtain ⟨_, -, -, rfl⟩ := mem_blockWrites.mp now
    exact le_rfl

/-- What the newest write shows after a block is the block's own row, or was shown before. -/
theorem shows_after {latestSlot : ℕ} {row : AccountRow}
    (shown : Shows (writes ++ blockWrites ownerMapEnabled programs slot accounts) latestSlot row) :
    (∃ account ∈ accounts, stores programs account = true ∧ row = liveRow slot account ∧ slot ≤ latestSlot) ∨
      Shows writes latestSlot row := by
  obtain ⟨write, isLast, shows⟩ := shown
  rcases List.mem_append.mp isLast.mem with before | now
  · refine Or.inr ⟨write, ⟨before, isLast.reaches, fun other isWrite => ?_⟩, shows⟩
    exact isLast.last other (List.mem_append_left _ isWrite)
  · obtain ⟨account, member, -, rfl⟩ := mem_blockWrites.mp now
    obtain ⟨stored, rfl⟩ := row_writeOf.mp shows
    exact Or.inl ⟨account, member, stored, rfl, isLast.reaches⟩

/-- What was shown is shown after a block, unless the block has written its account at a higher slot. -/
theorem shows_before {latestSlot : ℕ} {row : AccountRow}
    (sound : Sound ownerMapEnabled programs writes cleaner) (shown : Shows writes latestSlot row) :
    Shows (writes ++ blockWrites ownerMapEnabled programs slot accounts) latestSlot row ∨
      row.slot < slot ∧ slot ≤ latestSlot ∧ ∃ account ∈ accounts, noted ownerMapEnabled programs account = true ∧
        account.pubkey = row.pubkey := by
  obtain ⟨write, isLast, shows⟩ := shown
  obtain ⟨pubkey, atSlot, -⟩ := sound.own write isLast.mem row shows
  by_cases written : row.slot < slot ∧ slot ≤ latestSlot ∧ ∃ account ∈ accounts,
      noted ownerMapEnabled programs account = true ∧ account.pubkey = row.pubkey
  · exact Or.inr written
  · refine Or.inl ⟨write, ⟨List.mem_append_left _ isLast.mem, isLast.reaches, fun other isWrite same reaches => ?_⟩,
      shows⟩
    rcases List.mem_append.mp isWrite with before | now
    · exact isLast.last other before same reaches
    · obtain ⟨account, member, isNoted, rfl⟩ := mem_blockWrites.mp now
      by_contra newer
      exact written ⟨atSlot ▸ not_le.mp newer, reaches, account, member, isNoted, same.trans pubkey.symm⟩

/-- The rows that a block adds, for what they must be: its own live rows and masks, a live row for each account it
stores, and a row that covers what was shown before of each account it writes. -/
structure Added (ownerMapEnabled : Bool) (programs : AccountSelectorConfig) (writes : List Write) (frontier slot : ℕ)
    (accounts : List AccountInfo) (added : List AccountRow) : Prop where
  source : ∀ row ∈ added, row.slot = slot ∧ ∃ account ∈ accounts, noted ownerMapEnabled programs account = true ∧
    account.pubkey = row.pubkey ∧ (row.lamports ≠ 0 → stores programs account = true ∧ row = liveRow slot account)
  live : ∀ account ∈ accounts, stores programs account = true → liveRow slot account ∈ added
  covers : ∀ account ∈ accounts, noted ownerMapEnabled programs account = true → ∀ latestSlot ≥ frontier,
    ∀ row, Shows writes latestSlot row → row.pubkey = account.pubkey → row.slot < slot → slot ≤ latestSlot →
      ∃ cover ∈ added, groupOf ownerMapEnabled cover = groupOf ownerMapEnabled row

/-- A row of a block is shown from its slot on, or covered by the row of the next write. -/
theorem Added.shown_or_covered {added : List AccountRow} {frontier : ℕ} {store : Store cfg}
    (adds : Added ownerMapEnabled programs writes frontier slot accounts added)
    (inTime : InTime ownerMapEnabled programs writes store slot accounts) {row : AccountRow} (member : row ∈ added)
    (positive : row.lamports ≠ 0) {latestSlot : ℕ} (reaches : row.slot ≤ latestSlot) :
    Shows (writes ++ blockWrites ownerMapEnabled programs slot accounts) latestSlot row ∨
      ∃ cover ∈ store.accounts.rows, Covers ownerMapEnabled latestSlot row cover := by
  obtain ⟨atSlot, account, inBlock, isNoted, -, isLive⟩ := adds.source row member
  obtain ⟨stored, rfl⟩ := isLive positive
  have shown (newest : ∀ write ∈ writes, write.pubkey = account.pubkey → write.slot ≤ latestSlot → write.slot ≤ slot) :
      Shows (writes ++ blockWrites ownerMapEnabled programs slot accounts) latestSlot (liveRow slot account) :=
    ⟨_, isLast_new inBlock isNoted reaches newest, row_writeOf.mpr ⟨stored, rfl⟩⟩
  rcases inTime account inBlock with after | keeps
  · exact Or.inl (shown fun write isWrite same _ => (after write isWrite same).le)
  · by_cases superseded : ∃ write ∈ writes, write.pubkey = account.pubkey ∧ write.slot ≤ latestSlot ∧ slot < write.slot
    · obtain ⟨write, isWrite, same, below, later⟩ := superseded
      obtain ⟨cover, isCover, group, newer, upTo⟩ := keeps.covered stored
      exact Or.inr ⟨cover, isCover, group, newer, (upTo write isWrite same later).trans below⟩
    · refine Or.inl (shown fun write isWrite same below => ?_)
      by_contra later
      exact superseded ⟨write, isWrite, same, below, not_le.mp later⟩

/-- What was covered stays covered, and what the block replaces is covered by a row that the block adds. -/
theorem Covered.save (sound : Sound ownerMapEnabled programs writes cleaner) {added : List AccountRow}
    (adds : Added ownerMapEnabled programs writes cleaner.frontier slot accounts added)
    {rows covers others : List AccountRow} (covered : Covered ownerMapEnabled writes cleaner.frontier rows covers)
    (more : covers ⊆ others) (new : added ⊆ others) :
    Covered ownerMapEnabled (writes ++ blockWrites ownerMapEnabled programs slot accounts) cleaner.frontier rows
      others := by
  intro row member positive latestSlot above reaches
  rcases covered row member positive latestSlot above reaches with shown | ⟨cover, present, covers⟩
  · rcases shows_before sound shown with still | ⟨older, newer, account, inBlock, isNoted, same⟩
    · exact Or.inl still
    · obtain ⟨cover, present, group⟩ :=
        adds.covers account inBlock isNoted latestSlot above row shown same.symm older newer
      have atSlot := (adds.source cover present).1
      exact Or.inr ⟨cover, new present, group, atSlot ▸ older, atSlot ▸ newer⟩
  · exact Or.inr ⟨cover, more present, covers⟩

theorem Sound.save (sound : Sound ownerMapEnabled programs writes cleaner)
    (inTime : InTime ownerMapEnabled programs writes cleaner.store slot accounts)
    (distinct : (accounts.map AccountInfo.pubkey).Nodup) {added : List AccountRow}
    (adds : Added ownerMapEnabled programs writes cleaner.frontier slot accounts added) {ownerMap : AccountOwnerMap}
    (tracks : ownerMapEnabled = true →
      MapSound ownerMap (writes ++ blockWrites ownerMapEnabled programs slot accounts))
    {table : KeyedTable cfg.primaryKey}
    (holds : ∀ row, row ∈ table.rows ↔ row ∈ cleaner.store.accounts.rows ∨ row ∈ added)
    {record : AccountsReceivedPerBlock}
    (records : ∀ item ∈ (keysForSlot record slot ownerMapEnabled).items,
      EntrySound ownerMapEnabled (writes ++ blockWrites ownerMapEnabled programs slot accounts) slot item) :
    Sound ownerMapEnabled programs (writes ++ blockWrites ownerMapEnabled programs slot accounts)
      { cleaner with
        store := ⟨ownerMap, table, cleaner.store.snapshotAccounts⟩
        received := cleaner.received.insert slot record } := by
  have sub : writes ⊆ writes ++ blockWrites ownerMapEnabled programs slot accounts := List.subset_append_left _ _
  have old : cleaner.store.accounts.rows ⊆ table.rows := fun row member => (holds row).mpr (Or.inl member)
  have new : added ⊆ table.rows := fun row member => (holds row).mpr (Or.inr member)
  refine ⟨fun write isWrite other isOther same atSlot => ?_, fun write isWrite row shows => ?_, fun row member => ?_,
    fun latestSlot above row shown => ?_, fun row member => ?_, ?_, tracks, fun other held found item member => ?_,
    fun item member => (sound.entries item member).of_subset sub, sound.drained⟩
  · rcases List.mem_append.mp isWrite with before | now
    · rcases List.mem_append.mp isOther with otherBefore | otherNow
      · exact sound.distinct write before other otherBefore same atSlot
      · obtain ⟨account, member, -, rfl⟩ := mem_blockWrites.mp otherNow
        exact absurd atSlot (inTime.apart member before same)
    · obtain ⟨account, member, -, rfl⟩ := mem_blockWrites.mp now
      rcases List.mem_append.mp isOther with otherBefore | otherNow
      · exact absurd atSlot.symm (inTime.apart member otherBefore same.symm)
      · obtain ⟨account', member', -, rfl⟩ := mem_blockWrites.mp otherNow
        rw [List.inj_on_of_nodup_map distinct member member' same]
  · rcases List.mem_append.mp isWrite with before | now
    · exact sound.own write before row shows
    · obtain ⟨account, member, -, rfl⟩ := mem_blockWrites.mp now
      obtain ⟨stored, rfl⟩ := row_writeOf.mp shows
      exact ⟨rfl, rfl, SaveBlock.lamports_of_stores stored, (Bool.and_eq_true_iff.mp stored).2⟩
  · have origin : row ∈ cleaner.tables ∨ row ∈ added := by
      rcases List.mem_append.mp member with inAccounts | inSnapshot
      · exact ((holds row).mp inAccounts).imp (List.mem_append_left _) id
      · exact Or.inl (List.mem_append_right _ inSnapshot)
    rcases origin with before | now
    · obtain ⟨write, isWrite, rest⟩ := sound.written row before
      exact ⟨write, sub isWrite, rest⟩
    · obtain ⟨atSlot, account, inBlock, isNoted, same, isLive⟩ := adds.source row now
      refine ⟨writeOf programs slot account, List.mem_append_right _ (mem_blockWrites.mpr
        ⟨account, inBlock, isNoted, rfl⟩), same, atSlot.symm, fun positive => ?_⟩
      exact row_writeOf.mpr (isLive positive)
  · rcases shows_after shown with ⟨account, inBlock, stored, rfl, -⟩ | before
    · exact List.mem_append_left _ (new (adds.live account inBlock stored))
    · rcases List.mem_append.mp (sound.stored latestSlot above row before) with inAccounts | inSnapshot
      · exact List.mem_append_left _ (old inAccounts)
      · exact List.mem_append_right _ inSnapshot
  · rcases (holds row).mp member with before | now
    · exact sound.accounts.save sound adds old new row before
    · intro positive latestSlot _ reaches
      exact (adds.shown_or_covered inTime now positive reaches).imp id fun ⟨cover, isCover, covers⟩ =>
        ⟨cover, old isCover, covers⟩
  · refine Covered.save sound adds sound.snapshotAccounts (fun row member => ?_) fun row member =>
      List.mem_append_left _ (new member)
    rcases List.mem_append.mp member with inAccounts | inSnapshot
    · exact List.mem_append_left _ (old inAccounts)
    · exact List.mem_append_right _ inSnapshot
  · rw [HashMap.lookup_insert] at found
    split at found
    · next same =>
      obtain rfl := Option.some.inj found
      rw [same] at member ⊢
      exact records item member
    · exact (sound.received other held found item member).of_subset sub

end Save

end Cloudbreak.Model.Cleanup
