import Cloudbreak.Proofs.Cleanup.Reads

/-! # Saved blocks and their cleanup keys

A block's keys are of its own accounts: one at the slot for each row it stores, one past it for each account it closes
and each owner it takes an account from. Whatever a block replaces it covers, with the owner map on by a row of the
same owner.
-/

namespace Cloudbreak.Model.Cleanup

open Cloudbreak.ToMathlib
open SaveBlock (AccountRow AccountOwnerMap AccountOwnerItem ChangedOwner PgOwnerPartitionsConfig Store Saving SavingView
  BlockWrites liveRow stores isOwnerIncluded closedMask blockOwnerMap)
open Snapshot (AccountSelectorConfig)

variable {cfg : PgOwnerPartitionsConfig} {programs : AccountSelectorConfig} {ownerMap : AccountOwnerMap} {slot : ℕ}
  {accounts : List AccountInfo}

/-! ## Keys -/

theorem toKeyBytes_keyBytes (pubkey : Pubkey) : toKeyBytes (keyBytes pubkey) = some pubkey := by
  have folded : ∀ bytes : List UInt8,
      bytes.reverse.foldl (fun (key : Pubkey) byte => key * 256 + Fin.ofNat (2 ^ 256) byte.toNat) 0 =
        Fin.ofNat (2 ^ 256) (LittleEndian.ofBytes bytes) := by
    intro bytes
    induction bytes with
    | nil => rfl
    | cons byte rest ih =>
      rw [List.reverse_cons, List.foldl_append, ih, List.foldl_cons, List.foldl_nil, LittleEndian.ofBytes]
      apply Fin.ext
      simp only [Fin.val_add, Fin.val_mul, Fin.val_ofNat, Nat.add_mod, Nat.mul_mod, Nat.mod_mod]
      rw [Nat.add_comm, Nat.mul_comm]
      rfl
  rw [toKeyBytes, keyBytes, if_pos (Filters.IndexIdentity.length_programBytes pubkey),
    Filters.IndexIdentity.programBytes, folded,
    LittleEndian.ofBytes_toBytes (Filters.IndexIdentity.pubkey_lt pubkey)]
  exact congrArg some (Fin.ext (Nat.mod_eq_of_lt pubkey.isLt))

/-- Keys and owners that are read side by side. -/
theorem filterMap_zipIdx_keys {α : Type*} (items : List α) (pubkey owner : α → Pubkey) (cutoff : ℕ) :
    (items.map fun item => keyBytes (pubkey item)).zipIdx.filterMap (fun (bytes, index) =>
        (toKeyBytes bytes).map fun key =>
          (CleanupKey.mk (((items.map fun item => keyBytes (owner item))[index]?).bind toKeyBytes) key, cutoff)) =
      items.map fun item => (⟨some (owner item), pubkey item⟩, cutoff) := by
  have each : ∀ entry ∈ items.zipIdx, (toKeyBytes (keyBytes (pubkey entry.1))).map (fun key =>
      (CleanupKey.mk (((items.map fun item => keyBytes (owner item))[entry.2]?).bind toKeyBytes) key, cutoff)) =
      some (⟨some (owner entry.1), pubkey entry.1⟩, cutoff) := by
    rintro ⟨item, index⟩ member
    rw [List.mem_zipIdx_iff_getElem?] at member
    rw [toKeyBytes_keyBytes, List.getElem?_map, member, Option.map_some, Option.map_some, Option.bind_some,
      toKeyBytes_keyBytes]
  rw [List.zipIdx_map, List.filterMap_map]
  have firsts := congrArg (List.map fun item => (CleanupKey.mk (some (owner item)) (pubkey item), cutoff))
    (List.zipIdx_map_fst 0 items)
  rw [List.map_map] at firsts
  exact (List.filterMap_congr each).trans ((congrFun List.filterMap_eq_map _).trans firsts)

private theorem filterMap_keys (pubkeys : List Pubkey) (cutoff : ℕ) :
    (pubkeys.map keyBytes).filterMap (fun bytes =>
        (toKeyBytes bytes).map fun key => (CleanupKey.mk none key, cutoff)) =
      pubkeys.map fun pubkey => (⟨none, pubkey⟩, cutoff) := by
  rw [List.filterMap_map]
  refine (List.filterMap_congr fun pubkey _ => ?_).trans (congrFun List.filterMap_eq_map _)
  rw [Function.comp, toKeyBytes_keyBytes]
  rfl

private theorem items_recordWithMap (blockTime : Option ℤ) (saving : Saving) :
    (keysForSlot (recordWithMap blockTime slot saving) slot true).items =
      (saving.updated.map fun row => (⟨some row.owner, row.pubkey⟩, slot)) ++
        (closedCleanupPairs saving.ownerMap saving.closed slot).map fun pair =>
          (⟨some pair.owner, pair.pubkey⟩, slot + 1) := by
  have opened := filterMap_zipIdx_keys saving.updated AccountRow.pubkey AccountRow.owner slot
  have closed := filterMap_zipIdx_keys (closedCleanupPairs saving.ownerMap saving.closed slot) ChangedOwner.pubkey
    ChangedOwner.owner (slot + 1)
  rw [← opened, ← closed]
  simp only [keysForSlot, recordWithMap, List.length_map, decide_true, Bool.true_and, if_true]

private theorem items_recordWithoutMap (blockTime : Option ℤ) (saved : List AccountRow × List Pubkey) :
    (keysForSlot (recordWithoutMap blockTime saved) slot false).items =
      (saved.1.map fun row => (⟨none, row.pubkey⟩, slot)) ++
        saved.2.map fun pubkey => (⟨none, pubkey⟩, slot + 1) := by
  have opened := filterMap_keys (saved.1.map AccountRow.pubkey) slot
  rw [List.map_map, List.map_map] at opened
  have indexed := congrArg (List.filterMap fun bytes =>
    (toKeyBytes bytes).map fun key => (CleanupKey.mk none key, slot))
    (List.zipIdx_map_fst 0 (saved.1.map fun row => keyBytes row.pubkey))
  rw [List.filterMap_map] at indexed
  rw [← filterMap_keys saved.2 (slot + 1)]
  refine congrArg₂ (· ++ ·) ?_ rfl
  exact indexed.trans opened

/-! ## With the owner map -/

section WithMap

variable (programs ownerMap slot accounts) in
/-- What the loop over a block has collected, from a map on which no move waits. -/
def savingOf : Saving := accounts.foldl (SaveBlock.saveAccount programs slot) ⟨ownerMap, [], []⟩

private theorem view_savingOf (settled : ownerMap.changedOwners.lookup slot = none) (key : Pubkey) :
    (savingOf programs ownerMap slot accounts).view slot key =
      (accounts.filter fun account => decide (account.pubkey = key)).foldl
        (fun view account => SavingView.save programs slot account view)
        ⟨ownerMap.accounts.lookup key, [], [], []⟩ := by
  have start : Saving.view slot ⟨ownerMap, [], []⟩ key = ⟨ownerMap.accounts.lookup key, [], [], []⟩ := by
    simp only [Saving.view, settled]
    rfl
  rw [← start]
  exact (SaveBlock.saveAccount_local programs slot).view_foldl trivial accounts key

theorem view_savingOf_own (settled : ownerMap.changedOwners.lookup slot = none)
    (distinct : (accounts.map AccountInfo.pubkey).Nodup) {account : AccountInfo} (member : account ∈ accounts) :
    (savingOf programs ownerMap slot accounts).view slot account.pubkey =
      SavingView.save programs slot account ⟨ownerMap.accounts.lookup account.pubkey, [], [], []⟩ := by
  rw [view_savingOf settled, SaveBlock.filter_own distinct member, List.foldl_cons, List.foldl_nil]

theorem view_savingOf_other (settled : ownerMap.changedOwners.lookup slot = none) {key : Pubkey}
    (other : key ∉ accounts.map AccountInfo.pubkey) :
    (savingOf programs ownerMap slot accounts).view slot key = ⟨ownerMap.accounts.lookup key, [], [], []⟩ := by
  rw [view_savingOf settled, List.filter_eq_nil_iff.mpr fun account member same =>
    other (List.mem_map.mpr ⟨account, member, of_decide_eq_true same⟩), List.foldl_nil]

/-- A closed account of a block is not stored by it. -/
theorem of_mem_closed (settled : ownerMap.changedOwners.lookup slot = none)
    (distinct : (accounts.map AccountInfo.pubkey).Nodup) {pubkey : Pubkey}
    (member : pubkey ∈ (savingOf programs ownerMap slot accounts).closed) :
    ∃ account ∈ accounts, account.pubkey = pubkey ∧ stores programs account = false := by
  have own : pubkey ∈ ((savingOf programs ownerMap slot accounts).view slot pubkey).closed :=
    List.mem_filter.mpr ⟨member, decide_eq_true rfl⟩
  by_cases written : pubkey ∈ accounts.map AccountInfo.pubkey
  · obtain ⟨account, inBlock, rfl⟩ := List.mem_map.mp written
    rw [view_savingOf_own settled distinct inBlock] at own
    refine ⟨account, inBlock, rfl, ?_⟩
    cases closes : (⟨ownerMap.accounts.lookup account.pubkey, [], [], []⟩ : SavingView).closes programs slot
        account with
    | true => exact SaveBlock.not_stores_of_closes closes
    | false =>
      rw [SavingView.save] at own
      dsimp only at own
      rw [closes] at own
      contradiction
  · rw [view_savingOf_other settled written] at own
    contradiction

/-- A move of a block is to another owner than the one that it stores. -/
theorem of_mem_changedOwners (settled : ownerMap.changedOwners.lookup slot = none)
    (distinct : (accounts.map AccountInfo.pubkey).Nodup) {changed : ChangedOwner}
    (member : changed ∈ ((savingOf programs ownerMap slot accounts).ownerMap.changedOwners.lookup slot).getD []) :
    ∃ account ∈ accounts, account.pubkey = changed.pubkey ∧ changed.owner ≠ account.owner := by
  have own : changed ∈ ((savingOf programs ownerMap slot accounts).view slot changed.pubkey).changed :=
    List.mem_filter.mpr ⟨member, decide_eq_true rfl⟩
  by_cases written : changed.pubkey ∈ accounts.map AccountInfo.pubkey
  · obtain ⟨account, inBlock, same⟩ := List.mem_map.mp written
    rw [← same, view_savingOf_own settled distinct inBlock] at own
    refine ⟨account, inBlock, same, ?_⟩
    rw [SavingView.save] at own
    dsimp only at own
    rw [List.nil_append] at own
    split at own
    · next moves =>
      obtain ⟨item, held, rfl⟩ := List.mem_map.mp own
      have moved := (Bool.and_eq_true_iff.mp moves).2
      rw [SavingView.moved, Option.mem_toList.mp held, Option.any_some] at moved
      exact (of_decide_eq_true moved).1
    · contradiction
  · rw [view_savingOf_other settled written] at own
    contradiction

variable {store : Store cfg}

/-- What the map knows of an account after a block. -/
theorem lookup_blockOwnerMap (key : Pubkey) :
    (blockOwnerMap programs true ownerMap slot accounts).accounts.lookup key =
      (((savingOf programs ownerMap slot accounts).view slot key).closed.foldl
        (fun taken pubkey => SaveBlock.takeOwn slot pubkey taken)
        (((savingOf programs ownerMap slot accounts).view slot key).item, [])).1 := by
  have taken : (fun (taken : HashMap Pubkey AccountOwnerItem × List AccountRow) (key : Pubkey) =>
      (taken.1.lookup key, taken.2.filter fun row => decide (row.pubkey = key)))
      ((savingOf programs ownerMap slot accounts).closed.foldl (AccountOwnerMap.takeClosed slot)
        ((savingOf programs ownerMap slot accounts).ownerMap.accounts, [])) key = _ :=
    (SaveBlock.takeClosed_local slot).view_foldl trivial _ key
  exact congrArg Prod.fst taken

private theorem lookup_blockOwnerMap_other (settled : ownerMap.changedOwners.lookup slot = none) {key : Pubkey}
    (other : key ∉ accounts.map AccountInfo.pubkey) :
    (blockOwnerMap programs true ownerMap slot accounts).accounts.lookup key = ownerMap.accounts.lookup key := by
  rw [lookup_blockOwnerMap, view_savingOf_other settled other]
  rfl

theorem lookup_blockOwnerMap_own (settled : ownerMap.changedOwners.lookup slot = none)
    (distinct : (accounts.map AccountInfo.pubkey).Nodup) {account : AccountInfo} (member : account ∈ accounts) :
    (blockOwnerMap programs true ownerMap slot accounts).accounts.lookup account.pubkey =
      let view : SavingView := ⟨ownerMap.accounts.lookup account.pubkey, [], [], []⟩
      if view.closes programs slot account then none else (view.save programs slot account).item := by
  rw [lookup_blockOwnerMap, view_savingOf_own settled distinct member]
  dsimp only
  cases closes : (⟨ownerMap.accounts.lookup account.pubkey, [], [], []⟩ : SavingView).closes programs slot account with
  | true =>
    rw [if_pos rfl, SavingView.save]
    dsimp only
    rw [closes, SaveBlock.not_stores_of_closes closes, if_pos rfl, List.nil_append, List.foldl_cons, List.foldl_nil,
      Bool.false_and, if_neg Bool.false_ne_true, SaveBlock.takeOwn]
    cases ownerMap.accounts.lookup account.pubkey with
    | none => rfl
    | some item => rfl
  | false =>
    rw [if_neg Bool.false_ne_true]
    have none : (SavingView.save programs slot account
        ⟨ownerMap.accounts.lookup account.pubkey, [], [], []⟩).closed = [] := by
      rw [SavingView.save]
      dsimp only
      rw [closes]
      rfl
    rw [none, List.foldl_nil]

variable {writes : List Write}

/-- Before a newer write, the map knows its account since a lower slot. -/
theorem MapSound.earlier (sound : MapSound ownerMap writes) {account : AccountInfo} (after : After writes slot account)
    {item : AccountOwnerItem} (held : ownerMap.accounts.lookup account.pubkey = some item) : item.slot < slot := by
  obtain ⟨write, isWrite, same, below⟩ := sound.known _ item held
  exact below.trans_lt (after write isWrite same)

/-- The map knows only what was written. -/
theorem MapSound.known_save (sound : MapSound store.ownerMap writes) (distinct : (accounts.map AccountInfo.pubkey).Nodup)
    {pubkey : Pubkey} {item : AccountOwnerItem}
    (held : (blockOwnerMap programs true store.ownerMap slot accounts).accounts.lookup pubkey = some item) :
    ∃ write ∈ writes ++ blockWrites true programs slot accounts, write.pubkey = pubkey ∧ item.slot ≤ write.slot := by
  have before : store.ownerMap.accounts.lookup pubkey = some item →
      ∃ write ∈ writes ++ blockWrites true programs slot accounts, write.pubkey = pubkey ∧ item.slot ≤ write.slot :=
    fun known => by
      obtain ⟨write, isWrite, rest⟩ := sound.known pubkey item known
      exact ⟨write, List.mem_append_left _ isWrite, rest⟩
  by_cases written : pubkey ∈ accounts.map AccountInfo.pubkey
  · obtain ⟨account, member, rfl⟩ := List.mem_map.mp written
    rw [lookup_blockOwnerMap_own (sound.settled slot) distinct member] at held
    dsimp only at held
    split at held
    · contradiction
    · rw [SavingView.save] at held
      dsimp only at held
      split at held
      · refine ⟨writeOf programs slot account, List.mem_append_right _ (mem_blockWrites.mpr
          ⟨account, member, rfl, rfl⟩), rfl, ?_⟩
        rw [← Option.some.inj held]
        exact le_rfl
      · exact before held
  · rw [lookup_blockOwnerMap_other (sound.settled slot) written] at held
    exact before held

/-- A late write that keeps the owner leaves what the map knows of its account. -/
theorem lookup_of_keepsOwner (settled : store.ownerMap.changedOwners.lookup slot = none)
    (distinct : (accounts.map AccountInfo.pubkey).Nodup) {account : AccountInfo} (member : account ∈ accounts)
    (keeps : KeepsOwner true programs writes store slot account) {item : AccountOwnerItem}
    (held : store.ownerMap.accounts.lookup account.pubkey = some item) :
    (blockOwnerMap programs true store.ownerMap slot accounts).accounts.lookup account.pubkey = some item := by
  have unmoved := keeps.unmoved rfl
  rw [AccountOwnerMap.checkUpdatedAccountOwner] at unmoved
  have stays : ¬(⟨store.ownerMap.accounts.lookup account.pubkey, [], [], []⟩ : SavingView).closes programs slot
      account = true := fun closes => by
    rw [SavingView.closes, SavingView.moved] at closes
    dsimp only at closes
    rw [unmoved, decide_eq_false keeps.live] at closes
    cases closes
  rw [lookup_blockOwnerMap_own settled distinct member]
  dsimp only
  rw [if_neg stays, SavingView.save, SavingView.moved]
  dsimp only
  rw [unmoved, held, Option.isNone_some, Bool.or_false, Bool.and_false, if_neg Bool.false_ne_true]

/-- After a block, the map knows the owner of a row that the block stores as the newest of its account. -/
theorem MapSound.tracked_new (sound : MapSound store.ownerMap writes)
    (distinct : (accounts.map AccountInfo.pubkey).Nodup) {account : AccountInfo} (member : account ∈ accounts)
    (after : After writes slot account) (stored : stores programs account = true) :
    ∃ item, (blockOwnerMap programs true store.ownerMap slot accounts).accounts.lookup account.pubkey = some item ∧
      item.owner = account.owner := by
  have stays : ¬(⟨store.ownerMap.accounts.lookup account.pubkey, [], [], []⟩ : SavingView).closes programs slot
      account = true := fun closes => by
    rw [SaveBlock.not_stores_of_closes closes] at stored
    cases stored
  rw [lookup_blockOwnerMap_own (sound.settled slot) distinct member]
  dsimp only
  rw [if_neg stays, SavingView.save, stored, Bool.true_and]
  split
  · exact ⟨_, rfl, rfl⟩
  · next unmoved =>
    obtain ⟨unmoved, known⟩ := Bool.or_eq_false_iff.mp (Bool.eq_false_iff.mpr unmoved)
    dsimp only at known
    obtain ⟨item, held⟩ := Option.isSome_iff_exists.mp (Option.isNone_eq_false_iff.mp known)
    refine ⟨item, held, ?_⟩
    rw [SavingView.moved, held, Option.any_some] at unmoved
    by_contra differs
    exact of_decide_eq_false unmoved ⟨differs, sound.earlier after held⟩

theorem MapSound.save (sound : MapSound store.ownerMap writes)
    (inTime : InTime true programs writes store slot accounts) (distinct : (accounts.map AccountInfo.pubkey).Nodup) :
    MapSound (blockOwnerMap programs true store.ownerMap slot accounts)
      (writes ++ blockWrites true programs slot accounts) := by
  refine ⟨fun other => ?_, fun pubkey item held => sound.known_save distinct held,
    fun write isWrite newest row shows => ?_⟩
  · by_cases same : other = slot
    · exact (HashMap.lookup_erase ..).trans (if_pos same)
    · rw [SaveBlock.blockOwnerMap_changedOwners same]
      exact sound.settled other
  · have newestBefore : ∀ other ∈ writes, other.pubkey = write.pubkey → other.slot ≤ write.slot := fun other isOther =>
      newest other (List.mem_append_left _ isOther)
    rcases List.mem_append.mp isWrite with old | new
    · obtain ⟨item, held, owner⟩ := sound.tracked write old newestBefore row shows
      by_cases written : write.pubkey ∈ accounts.map AccountInfo.pubkey
      · obtain ⟨account, member, same⟩ := List.mem_map.mp written
        have isNew : writeOf programs slot account ∈ writes ++ blockWrites true programs slot accounts :=
          List.mem_append_right _ (mem_blockWrites.mpr ⟨account, member, rfl, rfl⟩)
        rcases inTime account member with after | keeps
        · exact absurd (newest _ isNew same) (not_le.mpr (after write old same.symm))
        · rw [← same] at held ⊢
          exact ⟨item, lookup_of_keepsOwner (sound.settled slot) distinct member keeps held, owner⟩
      · rw [lookup_blockOwnerMap_other (sound.settled slot) written]
        exact ⟨item, held, owner⟩
    · obtain ⟨account, member, -, rfl⟩ := mem_blockWrites.mp new
      obtain ⟨stored, rfl⟩ := row_writeOf.mp shows
      have after : After writes slot account := fun other isOther same =>
        lt_of_le_of_ne (newestBefore other isOther same) (inTime.apart member isOther same)
      exact sound.tracked_new distinct member after stored

theorem rows_own (settled : ownerMap.changedOwners.lookup slot = none)
    (distinct : (accounts.map AccountInfo.pubkey).Nodup) {account : AccountInfo} (member : account ∈ accounts)
    (chunkSize maxChunkBytesData : ℕ) :
    (BlockWrites.of programs chunkSize maxChunkBytesData ownerMap slot accounts).rows.filter
        (fun row => decide (row.pubkey = account.pubkey)) =
      (SavingView.save programs slot account ⟨ownerMap.accounts.lookup account.pubkey, [], [], []⟩).rows slot := by
  rw [SaveBlock.filter_rows, SaveBlock.ownView, SaveBlock.AccountOwnerMap.waiting, settled,
    SaveBlock.filter_own distinct member]
  rfl

private theorem rows_other (settled : ownerMap.changedOwners.lookup slot = none) {key : Pubkey}
    (other : key ∉ accounts.map AccountInfo.pubkey) (chunkSize maxChunkBytesData : ℕ) :
    (BlockWrites.of programs chunkSize maxChunkBytesData ownerMap slot accounts).rows.filter
        (fun row => decide (row.pubkey = key)) = [] := by
  rw [SaveBlock.filter_rows, SaveBlock.ownView, SaveBlock.AccountOwnerMap.waiting, settled,
    List.filter_eq_nil_iff.mpr fun account member same =>
      other (List.mem_map.mpr ⟨account, member, of_decide_eq_true same⟩)]
  rfl

/-- A block writes a row of the owner that the map knows for each of its accounts. -/
theorem exists_row_of_owner (settled : ownerMap.changedOwners.lookup slot = none)
    (distinct : (accounts.map AccountInfo.pubkey).Nodup) {account : AccountInfo} (member : account ∈ accounts)
    {item : AccountOwnerItem} (held : ownerMap.accounts.lookup account.pubkey = some item) (earlier : item.slot < slot)
    (included : isOwnerIncluded programs item.owner = true) (chunkSize maxChunkBytesData : ℕ) :
    ∃ row ∈ (BlockWrites.of programs chunkSize maxChunkBytesData ownerMap slot accounts).rows,
      row.pubkey = account.pubkey ∧ row.owner = item.owner := by
  have owners := @SaveBlock.owners_save programs slot account ⟨some item, [], [], []⟩ ⟨rfl, rfl⟩
  have written : item.owner ∈ ((SavingView.save programs slot account
      ⟨some item, [], [], []⟩).rows slot).map AccountRow.owner := by
    refine owners.symm.subset ?_
    by_cases masked : (⟨some item, [], [], []⟩ : SavingView).masked slot account = true
    · rw [masked, if_pos rfl]
      exact List.mem_append_right _ (List.mem_singleton_self _)
    · have stays : ¬(account.lamports = 0 ∨ item.owner ≠ account.owner ∧ item.slot < slot) := fun condition =>
        masked (SaveBlock.masked_iff.mpr condition)
      have same : item.owner = account.owner := by
        by_contra differs
        exact stays (Or.inr ⟨differs, earlier⟩)
      have stored : stores programs account = true := by
        rw [stores, ← same, included, Bool.and_true]
        exact decide_eq_true fun closed => stays (Or.inl closed)
      rw [stored, if_pos rfl, same]
      exact List.mem_append_left _ (List.mem_singleton_self _)
  obtain ⟨row, isRow, owner⟩ := List.mem_map.mp written
  rw [← held, ← rows_own settled distinct member chunkSize maxChunkBytesData] at isRow
  obtain ⟨inBlock, same⟩ := List.mem_filter.mp isRow
  exact ⟨row, inBlock, of_decide_eq_true same, owner⟩

theorem Sound.added_withMap {cleaner : Cleaner cfg} (sound : Sound true programs writes cleaner)
    (inTime : InTime true programs writes cleaner.store slot accounts) (distinct : (accounts.map AccountInfo.pubkey).Nodup)
    (chunkSize maxChunkBytesData : ℕ) :
    Added true programs writes cleaner.frontier slot accounts
      (BlockWrites.of programs chunkSize maxChunkBytesData cleaner.store.ownerMap slot accounts).rows := by
  have known := sound.ownerMap rfl
  have live : ∀ account ∈ accounts, stores programs account = true → liveRow slot account ∈
      (BlockWrites.of programs chunkSize maxChunkBytesData cleaner.store.ownerMap slot accounts).rows := by
    intro account member stored
    refine List.mem_append_left _ ?_
    rw [SaveBlock.chunks_flatten]
    exact List.mem_map_of_mem (List.mem_filter.mpr ⟨member, stored⟩)
  refine ⟨fun row member => ⟨SaveBlock.slot_of_mem_rows member, ?_⟩, fun account member stored => ?_,
    fun account member _ latestSlot above row shown same older reaches => ?_⟩
  · by_cases written : row.pubkey ∈ accounts.map AccountInfo.pubkey
    · rcases SaveBlock.mem_rows_live member with ⟨account, inBlock, stored, rfl⟩ | closed
      · exact ⟨account, inBlock, rfl, rfl, fun _ => ⟨stored, rfl⟩⟩
      · obtain ⟨account, inBlock, same⟩ := List.mem_map.mp written
        exact ⟨account, inBlock, rfl, same, fun positive => absurd closed positive⟩
    · have none := @rows_other programs _ _ _ (known.settled slot) _ written chunkSize maxChunkBytesData
      exact absurd rfl (of_decide_eq_false (Bool.eq_false_iff.mpr (List.filter_eq_nil_iff.mp none row member)))
  · exact live account member stored
  · obtain ⟨write, isLast, shows⟩ := shown
    obtain ⟨pubkey, atSlot, -, included⟩ := sound.own write isLast.mem row shows
    have sameKey : write.pubkey = account.pubkey := pubkey.symm.trans same
    rcases inTime account member with after | keeps
    · obtain ⟨item, held, owner⟩ := known.tracked write isLast.mem (fun other isOther otherKey =>
        isLast.last other isOther otherKey ((after other isOther (otherKey.trans sameKey)).le.trans reaches)) row shows
      rw [sameKey] at held
      rw [← owner] at included
      obtain ⟨cover, inBlock, coverKey, coverOwner⟩ := exists_row_of_owner (known.settled slot) distinct member held
        (known.earlier after held) included chunkSize maxChunkBytesData
      refine ⟨cover, inBlock, ?_⟩
      rw [groupOf, groupOf, coverKey, coverOwner, owner, same]
    · have lastBefore : IsLast writes slot write := ⟨isLast.mem, atSlot ▸ older.le, fun other isOther otherKey below =>
        isLast.last other isOther otherKey (below.trans reaches)⟩
      obtain ⟨stored, group⟩ := keeps.before write isLast.mem lastBefore sameKey row shows
      exact ⟨_, live account member stored, group.symm⟩

/-- The keys of a block come from its own writes. -/
theorem entrySound_withMap (settled : ownerMap.changedOwners.lookup slot = none)
    (distinct : (accounts.map AccountInfo.pubkey).Nodup) (blockTime : Option ℤ) {item : CleanupKey × ℕ}
    (member : item ∈ (keysForSlot (recordWithMap blockTime slot (savingOf programs ownerMap slot accounts)) slot
      true).items) :
    EntrySound true (writes ++ blockWrites true programs slot accounts) slot item := by
  have ofAccount : ∀ {account : AccountInfo}, account ∈ accounts →
      writeOf programs slot account ∈ writes ++ blockWrites true programs slot accounts := fun inBlock =>
    List.mem_append_right _ (mem_blockWrites.mpr ⟨_, inBlock, rfl, rfl⟩)
  rw [items_recordWithMap] at member
  rcases List.mem_append.mp member with opened | closed
  · obtain ⟨row, updated, rfl⟩ := List.mem_map.mp opened
    have stored := @SaveBlock.updated_foldl programs slot ⟨ownerMap, [], []⟩ accounts
    rw [savingOf, stored, List.nil_append] at updated
    obtain ⟨account, inBlock, rfl⟩ := List.mem_map.mp updated
    exact ⟨rfl, _, ofAccount (List.mem_filter.mp inBlock).1, rfl, le_rfl, Or.inl le_rfl⟩
  · obtain ⟨pair, isPair, rfl⟩ := List.mem_map.mp closed
    rcases List.mem_append.mp isPair with closes | moves
    · obtain ⟨pubkey, isClosed, tracked⟩ := List.mem_filterMap.mp closes
      obtain ⟨known, -, rfl⟩ := Option.map_eq_some_iff.mp tracked
      obtain ⟨account, inBlock, rfl, unstored⟩ := of_mem_closed settled distinct isClosed
      refine ⟨rfl, _, ofAccount inBlock, rfl, le_rfl, Or.inr ⟨rfl, fun row shows => ?_⟩⟩
      rw [(row_writeOf.mp shows).1] at unstored
      cases unstored
    · obtain ⟨account, inBlock, same, differs⟩ := of_mem_changedOwners settled distinct moves
      refine ⟨rfl, _, ofAccount inBlock, same, le_rfl, Or.inr ⟨rfl, fun row shows => ?_⟩⟩
      obtain ⟨-, rfl⟩ := row_writeOf.mp shows
      have apart : (liveRow slot account).owner ≠ pair.owner := Ne.symm differs
      rw [CleanupKey.hits, Option.all_some, decide_eq_false apart, Bool.and_false]

end WithMap

/-! ## Without the owner map -/

section WithoutMap

variable {writes : List Write} {cleaner : Cleaner cfg} {store : Store cfg} {chunkSize maxChunkBytesData : ℕ}

theorem mem_saveWithoutMap_rows {row : AccountRow} :
    row ∈ (saveWithoutMap programs slot accounts).1 ↔
      ∃ account ∈ accounts, stores programs account = true ∧ liveRow slot account = row := by
  rw [saveWithoutMap, List.mem_map]
  refine exists_congr fun account => ?_
  rw [List.mem_filter, List.mem_filter, stores, Bool.and_eq_true_iff, and_assoc, and_assoc, and_assoc]

theorem mem_saveWithoutMap_closed {pubkey : Pubkey} :
    pubkey ∈ (saveWithoutMap programs slot accounts).2 ↔
      ∃ account ∈ accounts, account.lamports = 0 ∧ account.pubkey = pubkey := by
  rw [saveWithoutMap, List.mem_map]
  refine exists_congr fun account => ?_
  rw [List.mem_filter, decide_eq_true_iff, and_assoc]

/-- A mask is of a closed account that has a row. -/
theorem mem_insertClosedAccount {tables : List AccountRow} {pubkeys : List Pubkey} {mask : AccountRow}
    (member : mask ∈ insertClosedAccount tables pubkeys slot) :
    mask.slot = slot ∧ mask.lamports = 0 ∧ mask.pubkey ∈ pubkeys := by
  obtain ⟨row, newest, rfl⟩ := List.mem_map.mp member
  have one := oneNewest_distinctOn AccountRow.pubkey AccountRow.slot
    (tables.filter fun row => pubkeys.contains row.pubkey)
  exact ⟨rfl, rfl, List.contains_iff_mem.mp (List.mem_filter.mp (one.subset newest)).2⟩

private theorem exists_mem_insertClosedAccount {tables : List AccountRow} {pubkeys : List Pubkey} {row : AccountRow}
    (present : row ∈ tables) (closed : row.pubkey ∈ pubkeys) (slot : ℕ) :
    ∃ mask ∈ insertClosedAccount tables pubkeys slot, mask.pubkey = row.pubkey := by
  have one := oneNewest_distinctOn AccountRow.pubkey AccountRow.slot
    (tables.filter fun row => pubkeys.contains row.pubkey)
  obtain ⟨newest, kept, same⟩ := one.complete row (List.mem_filter.mpr ⟨present, List.contains_iff_mem.mpr closed⟩)
  exact ⟨_, List.mem_map_of_mem kept, same⟩

private theorem noted_of_closed {account : AccountInfo} (closed : account.lamports = 0) :
    noted false programs account = true := by
  rw [noted, decide_eq_true closed]
  rfl

private theorem flatten_batches {α : Type} {size : ℕ} (positive : 0 < size) {count : ℕ} {items : List α}
    (enough : items.length ≤ count) : (batches size count items).flatten = items := by
  induction count generalizing items with
  | zero => exact (List.eq_nil_of_length_eq_zero (Nat.le_zero.mp enough)).symm
  | succ count ih =>
    rw [batches]
    split
    · next empty => exact (List.isEmpty_iff.mp empty).symm
    · have fewer : (items.drop size).length ≤ count := by
        rw [List.length_drop]
        omega
      rw [List.flatten_cons, ih fewer, List.take_append_drop]

/-- The masks of all batches are those of the closed accounts that have a row. -/
theorem mem_statements_withoutMap {row : AccountRow} :
    row ∈ (saveStatements false programs chunkSize maxChunkBytesData store slot accounts).flatten ↔
      row ∈ (saveWithoutMap programs slot accounts).1 ∨
        ∃ pubkeys ∈ batches insertClosedAccountsBatchSize (saveWithoutMap programs slot accounts).2.length
            (saveWithoutMap programs slot accounts).2,
          row ∈ insertClosedAccount (store.accounts.rows ++ store.snapshotAccounts) pubkeys slot := by
  rw [saveStatements]
  simp only [Bool.false_eq_true, if_false]
  rw [List.flatten_append, SaveBlock.Chunks.flatten_foldl_push, List.mem_append]
  refine or_congr Iff.rfl ?_
  rw [← List.flatMap_def, List.mem_flatMap]

private theorem exists_batch {pubkey : Pubkey} (closed : pubkey ∈ (saveWithoutMap programs slot accounts).2) :
    ∃ pubkeys ∈ batches insertClosedAccountsBatchSize (saveWithoutMap programs slot accounts).2.length
      (saveWithoutMap programs slot accounts).2, pubkey ∈ pubkeys := by
  have whole : (batches insertClosedAccountsBatchSize (saveWithoutMap programs slot accounts).2.length
      (saveWithoutMap programs slot accounts).2).flatten = (saveWithoutMap programs slot accounts).2 :=
    flatten_batches (by decide) (le_refl _)
  exact List.mem_flatten.mp (whole.symm ▸ closed)

private theorem Sound.added_withoutMap (sound : Sound false programs writes cleaner) :
    Added false programs writes cleaner.frontier slot accounts
      (saveStatements false programs chunkSize maxChunkBytesData cleaner.store slot accounts).flatten := by
  refine ⟨fun row member => ?_, fun account member stored => mem_statements_withoutMap.mpr (Or.inl
    (mem_saveWithoutMap_rows.mpr ⟨account, member, stored, rfl⟩)), fun account member isNoted latestSlot above row
    shown same _ reaches => ?_⟩
  · rcases mem_statements_withoutMap.mp member with live | ⟨pubkeys, isBatch, mask⟩
    · obtain ⟨account, inBlock, stored, rfl⟩ := mem_saveWithoutMap_rows.mp live
      exact ⟨rfl, account, inBlock, noted_of_stores stored, rfl, fun _ => ⟨stored, rfl⟩⟩
    · obtain ⟨atSlot, closed, inBatch⟩ := mem_insertClosedAccount mask
      have isClosed := List.mem_flatten.mpr ⟨pubkeys, isBatch, inBatch⟩
      rw [flatten_batches (by decide) (le_refl _)] at isClosed
      obtain ⟨account, inBlock, empty, same⟩ := mem_saveWithoutMap_closed.mp isClosed
      exact ⟨atSlot, account, inBlock, noted_of_closed empty, same, fun positive => absurd closed positive⟩
  · have group : ∀ cover : AccountRow, cover.pubkey = row.pubkey → groupOf false cover = groupOf false row := by
      intro cover coverKey
      rw [groupOf, groupOf, coverKey]
      rfl
    rw [noted, Bool.false_or] at isNoted
    rcases Bool.or_eq_true_iff.mp isNoted with closed | stored
    · have isClosed : row.pubkey ∈ (saveWithoutMap programs slot accounts).2 :=
        mem_saveWithoutMap_closed.mpr ⟨account, member, of_decide_eq_true closed, same.symm⟩
      obtain ⟨pubkeys, isBatch, inBatch⟩ := exists_batch isClosed
      obtain ⟨mask, isMask, coverKey⟩ :=
        exists_mem_insertClosedAccount (sound.stored latestSlot above row shown) inBatch slot
      exact ⟨mask, mem_statements_withoutMap.mpr (Or.inr ⟨pubkeys, isBatch, isMask⟩), group mask coverKey⟩
    · exact ⟨liveRow slot account, mem_statements_withoutMap.mpr (Or.inl
        (mem_saveWithoutMap_rows.mpr ⟨account, member, stored, rfl⟩)), group _ same.symm⟩

private theorem entrySound_withoutMap (blockTime : Option ℤ) {item : CleanupKey × ℕ}
    (member : item ∈ (keysForSlot (recordWithoutMap blockTime (saveWithoutMap programs slot accounts)) slot
      false).items) :
    EntrySound false (writes ++ blockWrites false programs slot accounts) slot item := by
  rw [items_recordWithoutMap] at member
  rcases List.mem_append.mp member with opened | closed
  · obtain ⟨row, live, rfl⟩ := List.mem_map.mp opened
    obtain ⟨account, inBlock, stored, rfl⟩ := mem_saveWithoutMap_rows.mp live
    exact ⟨rfl, _, List.mem_append_right _ (mem_blockWrites.mpr ⟨account, inBlock, noted_of_stores stored, rfl⟩), rfl,
      le_rfl, Or.inl le_rfl⟩
  · obtain ⟨pubkey, isClosed, rfl⟩ := List.mem_map.mp closed
    obtain ⟨account, inBlock, empty, rfl⟩ := mem_saveWithoutMap_closed.mp isClosed
    refine ⟨rfl, _, List.mem_append_right _ (mem_blockWrites.mpr ⟨account, inBlock, noted_of_closed empty, rfl⟩), rfl,
      le_rfl, Or.inr ⟨rfl, fun row shows => ?_⟩⟩
    exact absurd empty (SaveBlock.lamports_of_stores (row_writeOf.mp shows).1)

end WithoutMap

/-! ## Steps -/

section Step

variable {ownerMapEnabled : Bool} {writes : List Write} {cleaner : Cleaner cfg} {chunkSize maxChunkBytesData : ℕ}

theorem Sound.added (sound : Sound ownerMapEnabled programs writes cleaner)
    (inTime : InTime ownerMapEnabled programs writes cleaner.store slot accounts)
    (distinct : (accounts.map AccountInfo.pubkey).Nodup) :
    Added ownerMapEnabled programs writes cleaner.frontier slot accounts
      (saveStatements ownerMapEnabled programs chunkSize maxChunkBytesData cleaner.store slot accounts).flatten := by
  cases ownerMapEnabled with
  | true =>
    rw [saveStatements, if_pos rfl, SaveBlock.blockStatements, if_pos rfl, BlockWrites.statements, List.flatten_append,
      List.flatten_singleton]
    exact sound.added_withMap inTime distinct chunkSize maxChunkBytesData
  | false => exact sound.added_withoutMap

/-- A block that is saved whole adds the rows of all its statements. -/
theorem mem_rows_of_saveBlock {store : Store cfg} {blockTime : Option ℤ} {executed : List (List AccountRow)}
    (whole : executed.Perm (saveStatements ownerMapEnabled programs chunkSize maxChunkBytesData store slot accounts))
    (keyed : ((store.accounts.rows ++ executed.flatten).map cfg.primaryKey).Nodup)
    {saved : Store cfg × AccountsReceivedPerBlock}
    (saves : Cleanup.saveBlock ownerMapEnabled programs chunkSize maxChunkBytesData store slot blockTime accounts
      executed = some saved) :
    (∀ row, row ∈ saved.1.accounts.rows ↔ row ∈ store.accounts.rows ∨ row ∈
      (saveStatements ownerMapEnabled programs chunkSize maxChunkBytesData store slot accounts).flatten) ∧
      saved.1.snapshotAccounts = store.snapshotAccounts := by
  have holds : ∀ row, row ∈ (store.accounts.insertAll executed).rows ↔ row ∈ store.accounts.rows ∨ row ∈
      (saveStatements ownerMapEnabled programs chunkSize maxChunkBytesData store slot accounts).flatten := by
    intro row
    rw [KeyedTable.rows_insertAll_of_nodup keyed, List.mem_append, whole.flatten.mem_iff]
  cases ownerMapEnabled with
  | true =>
    have runs : SaveBlock.saveBlock programs chunkSize maxChunkBytesData true store slot accounts executed = some _ :=
      if_pos whole.subperm
    rw [Cleanup.saveBlock, if_pos rfl, runs] at saves
    cases saves
    exact ⟨holds, rfl⟩
  | false =>
    rw [Cleanup.saveBlock, if_neg Bool.false_ne_true, if_pos whole.subperm] at saves
    cases saves
    exact ⟨holds, rfl⟩

/-- With the owner map, the statements hold the rows of the block's writes. -/
theorem mem_rows_of_mem_statements {store : Store cfg} {row : AccountRow}
    (member : row ∈ (saveStatements true programs chunkSize maxChunkBytesData store slot accounts).flatten) :
    row ∈ (BlockWrites.of programs chunkSize maxChunkBytesData store.ownerMap slot accounts).rows := by
  rwa [saveStatements, if_pos rfl, SaveBlock.blockStatements, if_pos rfl, BlockWrites.statements, List.flatten_append,
    List.flatten_singleton] at member

/-- What a block leaves when it is saved whole. -/
theorem Sound.saveBlock (sound : Sound ownerMapEnabled programs writes cleaner)
    (inTime : InTime ownerMapEnabled programs writes cleaner.store slot accounts)
    (distinct : (accounts.map AccountInfo.pubkey).Nodup) {blockTime : Option ℤ} {executed : List (List AccountRow)}
    (whole : executed.Perm
      (saveStatements ownerMapEnabled programs chunkSize maxChunkBytesData cleaner.store slot accounts))
    (keyed : ((cleaner.store.accounts.rows ++ executed.flatten).map cfg.primaryKey).Nodup)
    {saved : Store cfg × AccountsReceivedPerBlock}
    (saves : Cleanup.saveBlock ownerMapEnabled programs chunkSize maxChunkBytesData cleaner.store slot blockTime accounts
      executed = some saved) :
    Sound ownerMapEnabled programs (writes ++ blockWrites ownerMapEnabled programs slot accounts)
      { cleaner with store := saved.1, received := cleaner.received.insert slot saved.2 } := by
  have holds := (mem_rows_of_saveBlock whole keyed saves).1
  have adds : Added ownerMapEnabled programs writes cleaner.frontier slot accounts
      (saveStatements ownerMapEnabled programs chunkSize maxChunkBytesData cleaner.store slot accounts).flatten :=
    sound.added inTime distinct
  cases ownerMapEnabled with
  | true =>
    have known := sound.ownerMap rfl
    have records : ∀ item ∈ (keysForSlot (recordWithMap blockTime slot
        (savingOf programs cleaner.store.ownerMap slot accounts)) slot true).items,
        EntrySound true (writes ++ blockWrites true programs slot accounts) slot item := fun item member =>
      entrySound_withMap (known.settled slot) distinct blockTime member
    have some_ : SaveBlock.saveBlock programs chunkSize maxChunkBytesData true cleaner.store slot accounts executed =
        some _ := if_pos whole.subperm
    rw [Cleanup.saveBlock, if_pos rfl, some_] at saves
    cases saves
    exact sound.save inTime distinct adds (fun _ => known.save inTime distinct) holds records
  | false =>
    have tracks : false = true → MapSound cleaner.store.ownerMap
        (writes ++ blockWrites false programs slot accounts) := fun enabled => by cases enabled
    have records : ∀ item ∈ (keysForSlot (recordWithoutMap blockTime (saveWithoutMap programs slot accounts)) slot
        false).items, EntrySound false (writes ++ blockWrites false programs slot accounts) slot item :=
      fun item member => entrySound_withoutMap blockTime member
    rw [Cleanup.saveBlock, if_neg Bool.false_ne_true, if_pos whole.subperm] at saves
    cases saves
    exact sound.save inTime distinct adds tracks holds records

end Step

end Cloudbreak.Model.Cleanup
