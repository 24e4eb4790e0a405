import Cloudbreak.Model.SaveBlock.Store
import Cloudbreak.Proofs.SaveBlock.OwnerMove
import Cloudbreak.ToMathlib.Run

/-! # A repaired block against the same block live

What a block stores for an account depends on its own write and on its entry in the owner map alone. So where no two
rows of the block share a key, and whatever the order of its statements, the repaired block differs exactly at the
accounts the gap fill drops, and there only by the mask of an old owner.
-/

namespace Cloudbreak.Model.SaveBlock

open Cloudbreak.ToMathlib
open Snapshot (AccountSelectorConfig)

variable {programs : AccountSelectorConfig} {cfg : PgOwnerPartitionsConfig} {chunkSize maxChunkBytesData slot : ℕ}
  {snapshotProcessed : Bool} {ownerMap : AccountOwnerMap} {store after : Store cfg} {accounts : List AccountInfo}

/-- What a block may leave when the database executes all of its statements, in whatever order. -/
def Saves (programs : AccountSelectorConfig) (chunkSize maxChunkBytesData : ℕ) (snapshotProcessed : Bool)
    (store : Store cfg) (slot : ℕ) (accounts : List AccountInfo) (after : Store cfg) : Prop :=
  ∃ executed, executed.Perm
      (blockStatements programs chunkSize maxChunkBytesData snapshotProcessed store.ownerMap slot accounts) ∧
    saveBlock programs chunkSize maxChunkBytesData snapshotProcessed store slot accounts executed = some after

/-- The same of the block that the gap fill rebuilds. -/
def SavesRepaired (programs : AccountSelectorConfig) (chunkSize maxChunkBytesData : ℕ) (snapshotProcessed : Bool)
    (store : Store cfg) (slot : ℕ) (accounts : List AccountInfo) (after : Store cfg) : Prop :=
  ∃ executed, executed.Perm (blockStatements programs chunkSize maxChunkBytesData snapshotProcessed store.ownerMap slot
      (accounts.filter (gapFillKeeps programs))) ∧
    saveRepaired programs chunkSize maxChunkBytesData snapshotProcessed store slot accounts executed = some after

theorem exists_saves : ∃ after, Saves programs chunkSize maxChunkBytesData snapshotProcessed store slot accounts after :=
  ⟨_, _, List.Perm.refl _, if_pos (List.Perm.refl _).subperm⟩

/-! ## The rows of one account -/

/-- The rows a block stores for one account, from the account's entry and its own writes. -/
def ownRows (programs : AccountSelectorConfig) (snapshotProcessed : Bool) (slot : ℕ) (item : Option AccountOwnerItem)
    (own : List AccountInfo) : List AccountRow :=
  let view := own.foldl (fun view account => view.save programs slot account) (⟨item, [], [], []⟩ : SavingView)
  view.updated ++ if snapshotProcessed then
      (view.closed.foldl (fun taken pubkey => takeOwn slot pubkey taken) (view.item, [])).2 ++
        view.changed.map fun changed => closedMask slot changed.pubkey changed.owner
    else []

/-- A block writes for each account what the account's own writes call for. -/
theorem filter_statements (unsaved : ownerMap.changedOwners.lookup slot = none) (key : Pubkey) :
    (blockStatements programs chunkSize maxChunkBytesData snapshotProcessed ownerMap slot accounts).flatten.filter
        (fun row => decide (row.pubkey = key)) =
      ownRows programs snapshotProcessed slot (ownerMap.accounts.lookup key)
        (accounts.filter fun account => decide (account.pubkey = key)) := by
  have start : Saving.view slot ⟨ownerMap, [], []⟩ key = ⟨ownerMap.accounts.lookup key, [], [], []⟩ := by
    simp only [Saving.view, unsaved]
    rfl
  have saved : Saving.view slot (accounts.foldl (saveAccount programs slot) ⟨ownerMap, [], []⟩) key = _ :=
    (saveAccount_local programs slot).view_foldl trivial accounts key
  rw [start] at saved
  unfold ownRows
  rw [← saved, blockStatements]
  cases snapshotProcessed with
  | false =>
    have updated := @updated_foldl programs slot ⟨ownerMap, [], []⟩ accounts
    rw [List.nil_append] at updated
    simp only [Bool.false_eq_true, if_false, List.append_nil, chunks_flatten, ← updated]
    rfl
  | true =>
    simp only [if_true, BlockWrites.statements, List.flatten_append, List.flatten_singleton, List.filter_append]
    rw [← List.filter_append]
    rw [saved]
    refine (filter_rows key).trans ?_
    rw [ownView, AccountOwnerMap.waiting, unsaved]
    rfl

private theorem slot_of_mem_statements {row : AccountRow}
    (member : row ∈ (blockStatements programs chunkSize maxChunkBytesData snapshotProcessed ownerMap slot
      accounts).flatten) : row.slot = slot := by
  rw [blockStatements] at member
  refine @slot_of_mem_rows programs ownerMap slot chunkSize maxChunkBytesData accounts row ?_
  cases snapshotProcessed with
  | false => exact List.mem_append_left _ member
  | true =>
    rw [if_pos rfl, BlockWrites.statements, List.flatten_append, List.flatten_singleton] at member
    exact member

/-! ## Keys -/

/-- A row whose account the owner map holds under another owner since a lower slot, so that the block has a mask of
the account as well. -/
def MovesBetween (programs : AccountSelectorConfig) (ownerMap : AccountOwnerMap) (slot : ℕ) (account : AccountInfo) :
    Prop :=
  stores programs account = true ∧
    ∃ item, ownerMap.accounts.lookup account.pubkey = some item ∧ item.owner ≠ account.owner ∧ item.slot < slot

/-- The tables are partitioned by owner, or no account of the block moves between included programs. -/
def RowsApart (cfg : PgOwnerPartitionsConfig) (programs : AccountSelectorConfig) (ownerMap : AccountOwnerMap)
    (slot : ℕ) (accounts : List AccountInfo) : Prop :=
  cfg.isOwnerPartitioned = true ∨ ∀ account ∈ accounts, ¬ MovesBetween programs ownerMap slot account

theorem RowsApart.filter (apart : RowsApart cfg programs ownerMap slot accounts) (keeps : AccountInfo → Bool) :
    RowsApart cfg programs ownerMap slot (accounts.filter keeps) :=
  apart.imp_right fun stays account member => stays account (List.mem_filter.mp member).1

/-- An account that does not move between included programs has one row at most. -/
theorem length_ownView_le (unsaved : ownerMap.changedOwners.lookup slot = none)
    (distinct : (accounts.map AccountInfo.pubkey).Nodup)
    (stays : ∀ account ∈ accounts, ¬ MovesBetween programs ownerMap slot account) (key : Pubkey) :
    ((ownView programs ownerMap slot accounts key).rows slot).length ≤ 1 := by
  rw [ownView, AccountOwnerMap.waiting, unsaved]
  change (((accounts.filter fun account => decide (account.pubkey = key)).foldl
    (fun view account => SavingView.save programs slot account view)
    ⟨ownerMap.accounts.lookup key, [], [], []⟩).rows slot).length ≤ 1
  by_cases written : key ∈ accounts.map AccountInfo.pubkey
  · obtain ⟨account, member, rfl⟩ := List.mem_map.mp written
    rw [filter_own distinct member, List.foldl_cons, List.foldl_nil, rows_save _ ⟨rfl, rfl⟩]
    dsimp only
    cases stored : stores programs account with
    | true =>
      have unmoved : ∀ waiting updated closed, (⟨ownerMap.accounts.lookup account.pubkey, waiting, updated,
          closed⟩ : SavingView).moved slot account = false := by
        intro waiting updated closed
        rw [SavingView.moved, Option.any_eq_false]
        exact fun item held => decide_eq_false fun moved => stays account member ⟨stored, item, held, moved⟩
      have opened : ∀ waiting updated closed, (⟨ownerMap.accounts.lookup account.pubkey, waiting, updated,
          closed⟩ : SavingView).closes programs slot account = false := by
        intro waiting updated closed
        by_contra closes
        rw [not_stores_of_closes (Bool.not_eq_false _ ▸ closes)] at stored
        cases stored
      simp [unmoved, opened]
    | false =>
      simp only [Bool.false_eq_true, if_false, Bool.false_and, List.nil_append, List.map_nil, List.append_nil]
      by_cases closes : SavingView.closes programs slot account ⟨ownerMap.accounts.lookup account.pubkey, [], [], []⟩
      · rw [if_pos closes, List.length_map]
        cases ownerMap.accounts.lookup account.pubkey with
        | none => exact Nat.zero_le 1
        | some item => exact le_refl 1
      · rw [if_neg closes]
        exact Nat.zero_le 1
  · rw [List.filter_eq_nil_iff.mpr fun account member equal =>
      written (List.mem_map.mpr ⟨account, member, of_decide_eq_true equal⟩)]
    exact Nat.zero_le 1

theorem nodup_rows (unsaved : ownerMap.changedOwners.lookup slot = none)
    (distinct : (accounts.map AccountInfo.pubkey).Nodup) (apart : RowsApart cfg programs ownerMap slot accounts) :
    ((BlockWrites.of programs chunkSize maxChunkBytesData ownerMap slot accounts).rows.map cfg.primaryKey).Nodup := by
  rcases apart with partitioned | stays
  · have none : ownerMap.waiting slot = [] := by
      rw [AccountOwnerMap.waiting, unsaved]
      rfl
    refine (nodup_primaryKey_iff partitioned distinct).mpr ⟨?_, fun account _ changed waits => ?_⟩
    · rw [none]
      exact List.nodup_nil
    · rw [none] at waits
      contradiction
  · have finer : ∀ first second, cfg.primaryKey first = cfg.primaryKey second → first.pubkey = second.pubkey :=
      fun first second same => congrArg (fun key => key.2.1) same
    refine (nodup_map_iff_filter finer _).mpr fun key => ?_
    have few := length_ownView_le unsaved distinct stays key
    rw [filter_rows]
    generalize (ownView programs ownerMap slot accounts key).rows slot = rows at few
    cases rows with
    | nil => exact List.nodup_nil
    | cons row rest =>
      rw [List.length_cons, Nat.succ_le_succ_iff, Nat.le_zero, List.length_eq_zero_iff] at few
      rw [few]
      exact List.nodup_singleton _

/-- The rows of a block have distinct keys where they are apart. -/
theorem nodup_statements (unsaved : ownerMap.changedOwners.lookup slot = none)
    (distinct : (accounts.map AccountInfo.pubkey).Nodup) (apart : RowsApart cfg programs ownerMap slot accounts) :
    ((blockStatements programs chunkSize maxChunkBytesData snapshotProcessed ownerMap slot accounts).flatten.map
      cfg.primaryKey).Nodup := by
  have keys := @nodup_rows programs cfg chunkSize maxChunkBytesData _ _ _ unsaved distinct apart
  rw [blockStatements]
  cases snapshotProcessed with
  | false => exact keys.sublist ((List.sublist_append_left _ _).map _)
  | true =>
    rw [if_pos rfl, BlockWrites.statements, List.flatten_append, List.flatten_singleton]
    exact keys

/-! ## What is visible -/

/-- The newest of the rows an owner has, if it has lamports. -/
def shown (program : Pubkey) (rows : List AccountRow) : Option AccountRow :=
  ((rows.filter fun row => decide (row.owner = program)).argmax AccountRow.slot).filter fun row => row.lamports > 0

private theorem visible_eq (store : Store cfg) (program key : Pubkey) :
    store.visible program key =
      shown program (store.snapshotAccounts.filter (fun row => decide (row.pubkey = key)) ++
        store.accounts.rows.filter fun row => decide (row.pubkey = key)) := by
  unfold Store.visible shown
  rw [← List.filter_append, List.filter_filter]
  congr 2
  refine List.filter_congr fun row _ => ?_
  rw [Bool.decide_and]

/-- A mask hides the shown row of its owner, unless that row is as new. -/
theorem shown_mask (program pubkey owner : Pubkey) (slot : ℕ) (rows : List AccountRow) :
    shown program (rows ++ [closedMask slot pubkey owner]) = shown program rows ↔
      (owner = program → ∀ row ∈ shown program rows, slot ≤ row.slot) := by
  unfold shown
  rw [List.filter_append]
  by_cases own : owner = program
  · have masked : [closedMask slot pubkey owner].filter (fun row => decide (row.owner = program)) =
        [closedMask slot pubkey owner] := List.filter_eq_self.mpr fun row member => by
      rw [List.mem_singleton.mp member]
      exact decide_eq_true own
    rw [masked, List.argmax_concat]
    have hidden : (some (closedMask slot pubkey owner)).filter (fun row => decide (row.lamports > 0)) = none := rfl
    cases newest : (rows.filter fun row => decide (row.owner = program)).argmax AccountRow.slot with
    | none => simp [hidden]
    | some row =>
      dsimp only
      split
      · next below =>
        change row.slot < slot at below
        rw [hidden]
        constructor
        · intro gone _ held present
          rw [← gone] at present
          contradiction
        · intro covered
          by_contra differs
          obtain ⟨held, present⟩ := Option.ne_none_iff_exists'.mp fun none => differs none.symm
          have reaches := covered own held present
          obtain ⟨same, -⟩ := Option.filter_eq_some_iff.mp present
          cases same
          omega
      · next notBelow =>
        change ¬ row.slot < slot at notBelow
        refine ⟨fun _ _ held present => ?_, fun _ => rfl⟩
        obtain ⟨same, -⟩ := Option.filter_eq_some_iff.mp present
        cases same
        omega
  · have masked : [closedMask slot pubkey owner].filter (fun row => decide (row.owner = program)) = [] :=
      List.filter_eq_nil_iff.mpr fun row member => by
        rw [List.mem_singleton.mp member]
        exact fun equal => own (of_decide_eq_true equal)
    rw [masked, List.append_nil]
    exact ⟨fun _ same => absurd same own, fun _ => rfl⟩

/-- Two orders of rows that have one key are the same if the keys are distinct. -/
private theorem eq_of_perm_of_key {rows others : List AccountRow} (perm : rows.Perm others)
    (distinct : (rows.map cfg.primaryKey).Nodup)
    (same : ∀ row ∈ rows, ∀ other ∈ rows, cfg.primaryKey row = cfg.primaryKey other) : rows = others := by
  cases rows with
  | nil => exact perm.nil_eq
  | cons row rest =>
    cases rest with
    | nil => exact perm.singleton_eq
    | cons other rest =>
      have equal := same row List.mem_cons_self other (List.mem_cons_of_mem _ List.mem_cons_self)
      rw [List.map_cons, List.map_cons, equal] at distinct
      exact absurd List.mem_cons_self (List.nodup_cons.mp distinct).1

/-- What is shown of an account after a block with its `own` writes. -/
def visibleAfter (programs : AccountSelectorConfig) (snapshotProcessed : Bool) (store : Store cfg) (slot : ℕ)
    (program key : Pubkey) (own : List AccountInfo) : Option AccountRow :=
  shown program ((store.snapshotAccounts.filter fun row => decide (row.pubkey = key)) ++
    (store.accounts.rows.filter fun row => decide (row.pubkey = key)) ++
    ownRows programs snapshotProcessed slot (store.ownerMap.accounts.lookup key) own)

/-- Where the rows of a block are apart, the order of its statements does not show. -/
theorem visible_saves (saves : Saves programs chunkSize maxChunkBytesData snapshotProcessed store slot accounts after)
    (unsaved : store.ownerMap.changedOwners.lookup slot = none) (fresh : ∀ row ∈ store.accounts.rows, row.slot ≠ slot)
    (distinct : (accounts.map AccountInfo.pubkey).Nodup)
    (apart : RowsApart cfg programs store.ownerMap slot accounts) (program key : Pubkey) :
    after.visible program key =
      visibleAfter programs snapshotProcessed store slot program key
        (accounts.filter fun account => decide (account.pubkey = key)) := by
  obtain ⟨executed, ordered, saved⟩ := saves
  rw [saveBlock, if_pos ordered.subperm] at saved
  cases saved
  have written := ordered.flatten
  have atSlot : ∀ row ∈ executed.flatten, row.slot = slot := fun row member =>
    slot_of_mem_statements (written.subset member)
  have keys : (executed.flatten.map cfg.primaryKey).Nodup :=
    (written.map cfg.primaryKey).nodup_iff.mpr (nodup_statements unsaved distinct apart)
  have own : (executed.flatten.filter fun row => decide (row.pubkey = key)).filter
      (fun row => decide (row.owner = program)) =
      (ownRows programs snapshotProcessed slot (store.ownerMap.accounts.lookup key)
        (accounts.filter fun account => decide (account.pubkey = key))).filter
          fun row => decide (row.owner = program) := by
    rw [← filter_statements unsaved]
    refine @eq_of_perm_of_key cfg _ _ ((written.filter _).filter _) ?_ fun row member other isOther => ?_
    · exact keys.sublist ((List.filter_sublist.trans List.filter_sublist).map _)
    · obtain ⟨inKey, owner⟩ := List.mem_filter.mp member
      obtain ⟨present, pubkey⟩ := List.mem_filter.mp inKey
      obtain ⟨otherInKey, otherOwner⟩ := List.mem_filter.mp isOther
      obtain ⟨otherPresent, otherPubkey⟩ := List.mem_filter.mp otherInKey
      rw [PgOwnerPartitionsConfig.primaryKey, PgOwnerPartitionsConfig.primaryKey, of_decide_eq_true owner,
        of_decide_eq_true otherOwner, of_decide_eq_true pubkey, of_decide_eq_true otherPubkey, atSlot row present,
        atSlot other otherPresent]
  rw [visible_eq, visibleAfter]
  dsimp only
  rw [KeyedTable.rows_insertAll_of_nodup ((nodup_keys_iff fresh atSlot).mpr keys), List.filter_append,
    ← List.append_assoc, shown, shown, List.filter_append, own, ← List.filter_append]

/-! ## The accounts that are dropped -/

/-- What is dropped is of an owner that is not included. -/
theorem not_included_of_dropped {account : AccountInfo} (dropped : gapFillKeeps programs account = false) :
    isOwnerIncluded programs account.owner = false := by
  unfold gapFillKeeps at dropped
  unfold isOwnerIncluded
  split at dropped
  · next selects =>
    simp only [Bool.not_eq_false', Bool.and_eq_true, Bool.not_eq_true'] at dropped
    rw [if_pos selects]
    exact dropped.1
  · next selects =>
    rw [if_neg selects]
    exact dropped

/-- Live, a dropped account only has its mask. -/
theorem ownRows_dropped {account : AccountInfo} (dropped : gapFillKeeps programs account = false)
    (snapshotProcessed : Bool) (item : Option AccountOwnerItem) :
    ownRows programs snapshotProcessed slot item [account] =
      if snapshotProcessed && (decide (account.lamports = 0) ||
          item.any fun item => item.owner ≠ account.owner ∧ item.slot < slot) then
        item.toList.map fun item => closedMask slot account.pubkey item.owner
      else [] := by
  have outside := not_included_of_dropped dropped
  have unstored : stores programs account = false := by
    rw [stores, outside, Bool.and_false]
  unfold ownRows
  simp only [List.foldl_cons, List.foldl_nil, SavingView.save, unstored, SavingView.closes, outside, Bool.not_false,
    Bool.and_true, SavingView.moved, Bool.false_and, Bool.false_eq_true, if_false, List.append_nil, List.nil_append,
    List.map_nil]
  cases snapshotProcessed with
  | false => simp
  | true =>
    simp only [if_true, Bool.true_and]
    split
    · cases item with
      | none => rfl
      | some item => rfl
    · rfl

/-- A dropped account that the live block would have masked, over a row that is shown. -/
def GapFillMisses (programs : AccountSelectorConfig) (snapshotProcessed : Bool) (store : Store cfg) (slot : ℕ)
    (account : AccountInfo) : Prop :=
  gapFillKeeps programs account = false ∧ snapshotProcessed = true ∧
    ∃ item row, store.ownerMap.accounts.lookup account.pubkey = some item ∧ isOwnerIncluded programs item.owner ∧
      (account.lamports = 0 ∨ item.owner ≠ account.owner ∧ item.slot < slot) ∧
      store.visible item.owner account.pubkey = some row ∧ row.slot < slot

/-- For one account that the gap fill drops. -/
theorem visible_dropped {account : AccountInfo} (dropped : gapFillKeeps programs account = false) (program : Pubkey) :
    visibleAfter programs snapshotProcessed store slot program account.pubkey [] =
        visibleAfter programs snapshotProcessed store slot program account.pubkey [account] ↔
      ∀ item row, snapshotProcessed = true → store.ownerMap.accounts.lookup account.pubkey = some item →
        (account.lamports = 0 ∨ item.owner ≠ account.owner ∧ item.slot < slot) → item.owner = program →
        store.visible item.owner account.pubkey = some row → slot ≤ row.slot := by
  have repaired : ownRows programs snapshotProcessed slot (store.ownerMap.accounts.lookup account.pubkey) [] = [] := by
    unfold ownRows
    cases snapshotProcessed <;> rfl
  rw [visibleAfter, visibleAfter, repaired, List.append_nil, ownRows_dropped dropped]
  simp only [visible_eq]
  generalize (store.snapshotAccounts.filter fun row => decide (row.pubkey = account.pubkey)) ++
    (store.accounts.rows.filter fun row => decide (row.pubkey = account.pubkey)) = rows
  cases tracked : store.ownerMap.accounts.lookup account.pubkey with
  | none => simp
  | some item =>
    by_cases masked : (snapshotProcessed && (decide (account.lamports = 0) ||
        (some item).any fun item => item.owner ≠ account.owner ∧ item.slot < slot)) = true
    · rw [if_pos masked]
      simp only [Option.any_some, Bool.and_eq_true, Bool.or_eq_true, decide_eq_true_eq] at masked
      refine Iff.trans ⟨Eq.symm, Eq.symm⟩ ((shown_mask program account.pubkey item.owner slot rows).trans ?_)
      constructor
      · rintro covered _ row - same - rfl present
        cases same
        exact covered rfl row present
      · intro covered same row present
        exact covered item row masked.1 rfl masked.2 same (same ▸ present)
    · rw [if_neg masked, List.append_nil]
      simp only [Option.any_some, Bool.and_eq_true, Bool.or_eq_true, decide_eq_true_eq] at masked
      refine ⟨?_, fun _ => rfl⟩
      rintro - _ row processed same closes
      cases same
      exact absurd ⟨processed, closes⟩ masked

/-- Saving a block leaves the changed owners of other slots. -/
theorem blockOwnerMap_changedOwners {other : ℕ} (differs : other ≠ slot) :
    (blockOwnerMap programs snapshotProcessed ownerMap slot accounts).changedOwners.lookup other =
      ownerMap.changedOwners.lookup other := by
  have saved : ∀ (accounts : List AccountInfo) (saving : Saving),
      (accounts.foldl (saveAccount programs slot) saving).ownerMap.changedOwners.lookup other =
        saving.ownerMap.changedOwners.lookup other := by
    intro accounts
    induction accounts with
    | nil => exact fun _ => rfl
    | cons account rest ih =>
      intro saving
      rw [List.foldl_cons, ih, saveAccount_eq]
      dsimp only
      split
      · unfold AccountOwnerMap.upsertAccount
        split
        · split
          · exact (HashMap.lookup_insert ..).trans (if_neg differs)
          · rfl
        · rfl
      · rfl
  unfold blockOwnerMap
  cases snapshotProcessed with
  | false => exact saved accounts _
  | true => exact (HashMap.lookup_erase ..).trans ((if_neg differs).trans (saved accounts _))

/-! ## Runs -/

/-- The slots that are saved are those of the events. -/
theorem unsaved_run {first : Store cfg} {events : List SaveEvent} (settled : first.ownerMap.changedOwners = ∅)
    (fresh : ∀ row ∈ first.accounts.rows, row.slot ≠ slot)
    (run : Run first (Store.step programs chunkSize maxChunkBytesData) (fun _ _ _ => True) events store)
    (missing : slot ∉ events.map SaveEvent.slot) :
    store.ownerMap.changedOwners.lookup slot = none ∧ ∀ row ∈ store.accounts.rows, row.slot ≠ slot := by
  induction run with
  | start => exact ⟨by rw [settled, HashMap.lookup_empty], fresh⟩
  | @step _ _ _ event _ _ moves ih =>
    rw [List.map_append, List.mem_append, not_or] at missing
    have differs : slot ≠ event.slot := fun same => missing.2 (List.mem_singleton.mpr same)
    obtain ⟨unsaved, fresh⟩ := ih missing.1
    rw [Store.step, saveBlock, Option.ite_none_right_eq_some] at moves
    obtain ⟨among, moved⟩ := moves
    cases moved
    refine ⟨(blockOwnerMap_changedOwners differs).trans unsaved, fun row member => ?_⟩
    rcases KeyedTable.mem_of_mem_insertAll member with before | now
    · exact fresh row before
    · obtain ⟨statement, isExecuted, inStatement⟩ := List.mem_flatten.mp now
      have atSlot := slot_of_mem_statements (List.mem_flatten.mpr ⟨statement, among.subset isExecuted, inStatement⟩)
      exact fun same => differs (same.symm.trans atSlot)

/-- Where no two rows of the block share a key, the repaired block shows the programs what the live one does, in
every order of the statements of both, exactly if the gap fill misses no mask. -/
theorem repaired_agrees_iff (programs : AccountSelectorConfig) (chunkSize maxChunkBytesData : ℕ) {first : Store cfg}
    {events : List SaveEvent} {store : Store cfg} (settled : first.ownerMap.changedOwners = ∅) {slot : ℕ}
    (fresh : ∀ row ∈ first.accounts.rows, row.slot ≠ slot)
    (run : Run first (Store.step programs chunkSize maxChunkBytesData) (fun _ _ _ => True) events store)
    (missing : slot ∉ events.map SaveEvent.slot) (snapshotProcessed : Bool) {accounts : List AccountInfo}
    (distinct : (accounts.map AccountInfo.pubkey).Nodup)
    (apart : RowsApart cfg programs store.ownerMap slot accounts) :
    (∀ live repaired,
        Saves programs chunkSize maxChunkBytesData snapshotProcessed store slot accounts live →
        SavesRepaired programs chunkSize maxChunkBytesData snapshotProcessed store slot accounts repaired →
        ∀ program key, isOwnerIncluded programs program → repaired.visible program key = live.visible program key) ↔
      ∀ account ∈ accounts, ¬ GapFillMisses programs snapshotProcessed store slot account := by
  obtain ⟨unsaved, fresh⟩ := unsaved_run settled fresh run missing
  have fewer : ((accounts.filter (gapFillKeeps programs)).map AccountInfo.pubkey).Nodup :=
    distinct.sublist (List.filter_sublist.map _)
  constructor
  · rintro agrees account member ⟨dropped, processed, item, row, tracked, included, closes, present, below⟩
    obtain ⟨live, isLive⟩ := @exists_saves programs cfg chunkSize maxChunkBytesData slot snapshotProcessed store accounts
    obtain ⟨repaired, isRepaired⟩ := @exists_saves programs cfg chunkSize maxChunkBytesData slot snapshotProcessed store
      (accounts.filter (gapFillKeeps programs))
    have same := agrees live repaired isLive isRepaired item.owner account.pubkey included
    rw [visible_saves isLive unsaved fresh distinct apart, visible_saves isRepaired unsaved fresh fewer (apart.filter _),
      filter_own distinct member, List.filter_comm, filter_own distinct member, List.filter_singleton, dropped] at same
    have covered := (visible_dropped dropped item.owner).mp same item row processed tracked closes rfl present
    omega
  · intro misses live repaired isLive isRepaired program key included
    rw [visible_saves isLive unsaved fresh distinct apart, visible_saves isRepaired unsaved fresh fewer (apart.filter _),
      List.filter_comm]
    by_cases written : key ∈ accounts.map AccountInfo.pubkey
    · obtain ⟨account, member, rfl⟩ := List.mem_map.mp written
      rw [filter_own distinct member, List.filter_singleton]
      cases keeps : gapFillKeeps programs account with
      | true => rfl
      | false =>
        refine (visible_dropped keeps program).mpr ?_
        rintro item row processed tracked closes rfl present
        by_contra below
        exact misses account member ⟨keeps, processed, item, row, tracked, included, closes, present, not_le.mp below⟩
    · have none : accounts.filter (fun account => decide (account.pubkey = key)) = [] :=
        List.filter_eq_nil_iff.mpr fun account member equal =>
          written (List.mem_map.mpr ⟨account, member, of_decide_eq_true equal⟩)
      rw [none]
      rfl

section Examples

/-- One account of program 5, tracked since slot 1. -/
private def oneTracked : Store ⟨true, false⟩ :=
  ⟨⟨AList.insert 1 ⟨5, 1⟩ ∅, ∅⟩, ⟨[⟨1, 5, 10, 1, []⟩], List.nodup_singleton _⟩, []⟩

private def twoPrograms : AccountSelectorConfig := ⟨[5, 6], []⟩

theorem repaired_agrees_on_an_included_move :
    gapFillKeeps twoPrograms ⟨3, 9, 7, []⟩ = false ∧ ∀ live repaired,
      Saves twoPrograms 1 1 true oneTracked 2 [⟨1, 6, 10, []⟩, ⟨3, 9, 7, []⟩] live →
      SavesRepaired twoPrograms 1 1 true oneTracked 2 [⟨1, 6, 10, []⟩, ⟨3, 9, 7, []⟩] repaired →
      ∀ program key, isOwnerIncluded twoPrograms program →
        repaired.visible program key = live.visible program key := by
  have begin : Run oneTracked (Store.step twoPrograms 1 1) (fun _ _ _ => True) [] oneTracked := .start
  refine ⟨by decide, (repaired_agrees_iff twoPrograms 1 1 rfl (by decide) begin List.not_mem_nil true (by decide)
    (Or.inl rfl)).mpr ?_⟩
  rintro account member ⟨dropped, -, item, row, tracked, -⟩
  rcases List.mem_cons.mp member with rfl | member
  · exact absurd dropped (by decide)
  · rw [List.mem_singleton.mp member] at tracked
    have untracked : oneTracked.ownerMap.accounts.lookup 3 = none := by decide
    rw [untracked] at tracked
    contradiction

/-- The account moves to a program that is not included. -/
theorem repaired_block_keeps_a_moved_account :
    ∃ store live repaired, Run oneTracked (Store.step twoPrograms 1 1) (fun _ _ _ => True) [] store ∧
      Saves twoPrograms 1 1 true store 2 [⟨1, 9, 10, []⟩] live ∧
      SavesRepaired twoPrograms 1 1 true store 2 [⟨1, 9, 10, []⟩] repaired ∧
      live.visible 5 1 = none ∧ repaired.visible 5 1 = some ⟨1, 5, 10, 1, []⟩ := by
  obtain ⟨live, isLive⟩ := @exists_saves twoPrograms ⟨true, false⟩ 1 1 2 true oneTracked [⟨1, 9, 10, []⟩]
  obtain ⟨repaired, isRepaired⟩ : ∃ repaired, SavesRepaired twoPrograms 1 1 true oneTracked 2 [⟨1, 9, 10, []⟩] repaired :=
    exists_saves
  refine ⟨oneTracked, live, repaired, .start, isLive, isRepaired, ?_, ?_⟩
  · rw [visible_saves isLive rfl (by decide) (by decide) (Or.inl rfl)]
    decide +kernel
  · rw [visible_saves isRepaired rfl (by decide) (by decide) (Or.inl rfl)]
    decide +kernel

end Examples

end Cloudbreak.Model.SaveBlock
