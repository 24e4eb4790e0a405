import Cloudbreak.Model.SaveBlock.OwnerMove
import Cloudbreak.Proofs.SaveBlock.SavingView

/-! # An account that moves between included programs

The move stores two rows of one account at one slot: the mask of the old owner and the live row of the new one. A
table that is not partitioned by owner has one key for both, so that a statement fails. In a partitioned table both
are stored, and the query by account answers with whichever of them the database returns first. No move is therefore
readable under its new owner in every order of the rows.
-/

namespace Cloudbreak.Model.SaveBlock

open Cloudbreak.ToMathlib
open Snapshot (AccountSelectorConfig)

variable {programs : AccountSelectorConfig} {ownerMap : AccountOwnerMap} {slot chunkSize maxChunkBytesData : ℕ}
  {accounts : List AccountInfo} {account : AccountInfo} {cfg : PgOwnerPartitionsConfig}

/-! ## The rows of a block -/

private theorem Chunks.flatten_finish (chunks : Chunks) :
    chunks.finish.flatten = chunks.chunks.flatten ++ chunks.currentChunk := by
  rw [finish]
  split
  · next empty => rw [List.isEmpty_iff.mp empty, List.append_nil]
  · rw [List.flatten_append, List.flatten_singleton]

theorem Chunks.flatten_foldl_push (chunks : Chunks) (rows : List AccountRow) :
    (rows.foldl (Chunks.push chunkSize maxChunkBytesData) chunks).finish.flatten = chunks.finish.flatten ++ rows := by
  induction rows generalizing chunks with
  | nil => exact (List.append_nil _).symm
  | cons row rest ih =>
    have pushed : (chunks.push chunkSize maxChunkBytesData row).finish.flatten = chunks.finish.flatten ++ [row] := by
      rw [flatten_finish, flatten_finish, push]
      split
      · rw [List.flatten_append, List.flatten_singleton, List.append_nil, List.append_assoc]
      · exact (List.append_assoc ..).symm
    rw [List.foldl_cons, ih, pushed, List.append_assoc, List.singleton_append]

theorem updated_foldl (saving : Saving) (accounts : List AccountInfo) :
    (accounts.foldl (saveAccount programs slot) saving).updated =
      saving.updated ++ (accounts.filter (stores programs)).map (liveRow slot) := by
  induction accounts generalizing saving with
  | nil => exact (List.append_nil _).symm
  | cons account rest ih =>
    rw [List.foldl_cons, ih, saveAccount_eq, List.filter_cons]
    dsimp only
    split
    · rw [List.map_cons, List.append_assoc]
      rfl
    · rw [List.append_nil]

/-- The moves that wait for the slot to be saved. -/
def AccountOwnerMap.waiting (ownerMap : AccountOwnerMap) (slot : ℕ) : List ChangedOwner :=
  (ownerMap.changedOwners.lookup slot).getD []

/-- The masks that a block writes, with those of the moves that waited. -/
theorem mem_saveClosedAccounts {closed : List Pubkey} {row : AccountRow}
    (member : row ∈ (ownerMap.saveClosedAccounts closed slot).2) : row.lamports = 0 ∧ row.slot = slot := by
  have taken : ∀ (closed : List Pubkey) (taken : HashMap Pubkey AccountOwnerItem × List AccountRow),
      (∀ row ∈ taken.2, row.lamports = 0 ∧ row.slot = slot) →
      ∀ row ∈ (closed.foldl (AccountOwnerMap.takeClosed slot) taken).2, row.lamports = 0 ∧ row.slot = slot := by
    intro closed
    induction closed with
    | nil => exact fun _ masks => masks
    | cons pubkey rest ih =>
      intro taken masks
      rw [List.foldl_cons]
      refine ih _ ?_
      unfold AccountOwnerMap.takeClosed
      split
      · exact masks
      · intro row member
        rcases List.mem_append.mp member with before | own
        · exact masks row before
        · rw [List.mem_singleton.mp own]
          exact ⟨rfl, rfl⟩
  rcases List.mem_append.mp member with closes | changes
  · exact taken closed _ (fun _ member => by contradiction) row closes
  · obtain ⟨changed, -, rfl⟩ := List.mem_map.mp changes
    exact ⟨rfl, rfl⟩

theorem chunks_flatten :
    (BlockWrites.of programs chunkSize maxChunkBytesData ownerMap slot accounts).chunks.flatten =
      (accounts.filter (stores programs)).map (liveRow slot) := by
  rw [BlockWrites.of]
  dsimp only
  rw [Chunks.flatten_foldl_push, updated_foldl]
  rfl

/-- The rows of one account, from what the loop holds of it. -/
def SavingView.rows (slot : ℕ) (view : SavingView) : List AccountRow := view.updated ++ view.masks slot

/-- What the loop holds of one account in the end. -/
def ownView (programs : AccountSelectorConfig) (ownerMap : AccountOwnerMap) (slot : ℕ) (accounts : List AccountInfo)
    (key : Pubkey) : SavingView :=
  (accounts.filter fun account => decide (account.pubkey = key)).foldl
    (fun view account => SavingView.save programs slot account view)
    ⟨ownerMap.accounts.lookup key, (ownerMap.waiting slot).filter fun changed => decide (changed.pubkey = key), [], []⟩

/-- A block stores for each account what the account's own writes and waiting moves call for. -/
theorem filter_rows (key : Pubkey) :
    (BlockWrites.of programs chunkSize maxChunkBytesData ownerMap slot accounts).rows.filter
        (fun row => decide (row.pubkey = key)) =
      (ownView programs ownerMap slot accounts key).rows slot := by
  have saved : Saving.view slot (accounts.foldl (saveAccount programs slot) ⟨ownerMap, [], []⟩) key =
      ownView programs ownerMap slot accounts key :=
    (saveAccount_local programs slot).view_foldl trivial accounts key
  rw [← saved, BlockWrites.rows, BlockWrites.of]
  dsimp only
  rw [Chunks.flatten_foldl_push, List.filter_append, filter_saveClosedAccounts]
  rfl

theorem not_stores_of_closes {view : SavingView} (closes : view.closes programs slot account = true) :
    stores programs account = false := by
  unfold SavingView.closes at closes
  unfold stores
  cases included : isOwnerIncluded programs account.owner with
  | false => exact Bool.and_false _
  | true =>
    rw [included, Bool.not_true, Bool.and_false, Bool.or_false] at closes
    simp [of_decide_eq_true closes]

/-- What one write stores: its own row, or the mask of its close, the masks of the moves that waited, and the mask
of its own move. -/
theorem rows_save (view : SavingView) (none : view.updated = [] ∧ view.closed = []) :
    (view.save programs slot account).rows slot =
      (if stores programs account then [liveRow slot account] else []) ++
        ((if view.closes programs slot account then
            view.item.toList.map fun item => closedMask slot account.pubkey item.owner else []) ++
          (view.changed.map (fun changed => closedMask slot changed.pubkey changed.owner) ++
            if stores programs account && view.moved slot account then
              view.item.toList.map fun item => closedMask slot account.pubkey item.owner else [])) := by
  rw [SavingView.rows, SavingView.masks, SavingView.save]
  dsimp only
  rw [none.1, none.2, List.nil_append, List.nil_append, List.map_append]
  refine congrArg₂ _ rfl (congrArg₂ _ ?_ (congrArg₂ _ rfl ?_))
  · cases closes : view.closes programs slot account with
    | true =>
      rw [not_stores_of_closes closes, Bool.false_and, if_pos rfl, if_pos rfl, List.foldl_cons, List.foldl_nil,
        if_neg Bool.false_ne_true, takeOwn]
      cases view.item with
      | none => rfl
      | some item => rfl
    | false => rfl
  · split
    · rw [List.map_map]
      rfl
    · rfl

/-! ## Keys in a partitioned table -/

/-- Whether the tracked owner of an account gets a mask. -/
def SavingView.masked (slot : ℕ) (account : AccountInfo) (view : SavingView) : Bool :=
  decide (account.lamports = 0) || view.moved slot account

private theorem masked_of_closes {view : SavingView} (closes : view.closes programs slot account = true) :
    view.masked slot account = true := by
  unfold SavingView.masked
  rcases Bool.or_eq_true_iff.mp closes with closed | left
  · rw [closed, Bool.true_or]
  · rw [(Bool.and_eq_true_iff.mp left).1, Bool.or_true]

private theorem masked_of_not_closes {view : SavingView} (open_ : view.closes programs slot account = false) :
    view.masked slot account = (stores programs account && view.moved slot account) := by
  obtain ⟨live, stays⟩ := Bool.or_eq_false_iff.mp open_
  have alive : decide (account.lamports ≠ 0) = true := decide_eq_true (of_decide_eq_false live)
  rw [SavingView.masked, stores, live, alive, Bool.false_or, Bool.true_and]
  cases moves : view.moved slot account with
  | false => exact (Bool.and_false _).symm
  | true =>
    rw [moves, Bool.true_and, Bool.not_eq_false'] at stays
    rw [stays, Bool.true_and]

theorem owners_save (view : SavingView) (none : view.updated = [] ∧ view.closed = []) :
    (((view.save programs slot account).rows slot).map AccountRow.owner).Perm
      ((if stores programs account then [account.owner] else []) ++
        (view.changed.map ChangedOwner.owner ++
          if view.masked slot account then view.item.toList.map AccountOwnerItem.owner else [])) := by
  have masks : (view.item.toList.map fun item => closedMask slot account.pubkey item.owner).map AccountRow.owner =
      view.item.toList.map AccountOwnerItem.owner := List.map_map
  have waits : (view.changed.map fun changed => closedMask slot changed.pubkey changed.owner).map AccountRow.owner =
      view.changed.map ChangedOwner.owner := List.map_map
  rw [rows_save view none, List.map_append, List.map_append, List.map_append, apply_ite (List.map AccountRow.owner),
    apply_ite (List.map AccountRow.owner), apply_ite (List.map AccountRow.owner), masks, waits]
  refine List.Perm.append (List.Perm.refl _) ?_
  cases closes : view.closes programs slot account with
  | true =>
    rw [not_stores_of_closes closes, masked_of_closes closes, Bool.false_and, if_pos rfl, if_pos rfl,
      if_neg Bool.false_ne_true, List.map_nil, List.append_nil]
    exact List.perm_append_comm
  | false =>
    rw [masked_of_not_closes closes]
    exact List.Perm.refl _

/-- A waiting move is not of the owner that an account of the block is stored or masked under. -/
def ApartFrom (programs : AccountSelectorConfig) (ownerMap : AccountOwnerMap) (slot : ℕ) (account : AccountInfo)
    (changed : ChangedOwner) : Prop :=
  (stores programs account = true → changed.owner ≠ account.owner) ∧
    ∀ item ∈ ownerMap.accounts.lookup account.pubkey,
      account.lamports = 0 ∨ item.owner ≠ account.owner ∧ item.slot < slot → changed.owner ≠ item.owner

/-- The masks of the slot are of different accounts or owners, also from the rows of the block. -/
structure MasksApart (programs : AccountSelectorConfig) (ownerMap : AccountOwnerMap) (slot : ℕ)
    (accounts : List AccountInfo) : Prop where
  waiting : (ownerMap.waiting slot).Nodup
  written : ∀ account ∈ accounts, ∀ changed ∈ ownerMap.waiting slot, changed.pubkey = account.pubkey →
    ApartFrom programs ownerMap slot account changed

theorem masked_iff {tracked : AccountOwnerItem} {waiting : List ChangedOwner} {updated : List AccountRow}
    {closed : List Pubkey} :
    (⟨some tracked, waiting, updated, closed⟩ : SavingView).masked slot account = true ↔
      account.lamports = 0 ∨ tracked.owner ≠ account.owner ∧ tracked.slot < slot := by
  rw [SavingView.masked, SavingView.moved, Bool.or_eq_true_iff, Option.any_some, decide_eq_true_iff, decide_eq_true_iff]

theorem mem_masked {view : SavingView} {owner : Pubkey} :
    (owner ∈ if view.masked slot account then view.item.toList.map AccountOwnerItem.owner else []) ↔
      ∃ tracked ∈ view.item, tracked.owner = owner ∧
        (account.lamports = 0 ∨ tracked.owner ≠ account.owner ∧ tracked.slot < slot) := by
  obtain ⟨item, waiting, updated, closed⟩ := view
  cases item with
  | none => simp
  | some tracked =>
    cases masked : (⟨some tracked, waiting, updated, closed⟩ : SavingView).masked slot account with
    | true =>
      rw [if_pos rfl, Option.toList_some, List.map_singleton, List.mem_singleton]
      constructor
      · rintro rfl
        exact ⟨tracked, rfl, rfl, masked_iff.mp masked⟩
      · rintro ⟨other, same, rfl, -⟩
        rw [Option.some.inj same]
    | false =>
      rw [if_neg Bool.false_ne_true]
      constructor
      · exact fun member => by contradiction
      · rintro ⟨other, same, -, condition⟩
        rw [← Option.some.inj same] at condition
        exact absurd (masked_iff.mpr condition) (Bool.eq_false_iff.mp masked)

/-- The owners of the rows that one write stores are distinct unless a waiting move has one of them. -/
theorem nodup_owners_iff {view : SavingView} (none : view.updated = [] ∧ view.closed = []) :
    (((view.save programs slot account).rows slot).map AccountRow.owner).Nodup ↔
      (view.changed.map ChangedOwner.owner).Nodup ∧ ∀ changed ∈ view.changed,
        (stores programs account = true → changed.owner ≠ account.owner) ∧
          ∀ tracked ∈ view.item, account.lamports = 0 ∨ tracked.owner ≠ account.owner ∧ tracked.slot < slot →
            changed.owner ≠ tracked.owner := by
  rw [(owners_save _ none).nodup_iff, List.nodup_append', List.nodup_append']
  have own : ∀ owner, (owner ∈ if stores programs account then [account.owner] else []) ↔
      stores programs account = true ∧ owner = account.owner := by
    intro owner
    split
    · next stored => rw [List.mem_singleton, and_iff_right stored]
    · next unstored => exact ⟨fun member => by contradiction, fun stored => absurd stored.1 unstored⟩
  constructor
  · rintro ⟨-, ⟨distinct, -, apart⟩, ownApart⟩
    refine ⟨distinct, fun changed member => ⟨fun stored same => ?_, fun tracked held condition same => ?_⟩⟩
    · exact ownApart ((own _).mpr ⟨stored, same⟩) (List.mem_append_left _ (List.mem_map_of_mem member))
    · exact apart (List.mem_map_of_mem member) (mem_masked.mpr ⟨tracked, held, same.symm, condition⟩)
  · rintro ⟨distinct, apart⟩
    refine ⟨?_, ⟨distinct, ?_, fun owner waits masked => ?_⟩, fun owner inOwn member => ?_⟩
    · split
      · exact List.nodup_singleton _
      · exact List.nodup_nil
    · split
      · cases view.item with
        | none => exact List.nodup_nil
        | some tracked => exact List.nodup_singleton _
      · exact List.nodup_nil
    · obtain ⟨changed, member, rfl⟩ := List.mem_map.mp waits
      obtain ⟨tracked, held, same, condition⟩ := mem_masked.mp masked
      exact (apart changed member).2 tracked held condition same.symm
    · obtain ⟨stored, rfl⟩ := (own owner).mp inOwn
      rcases List.mem_append.mp member with waits | masked
      · obtain ⟨changed, member, same⟩ := List.mem_map.mp waits
        exact (apart changed member).1 stored same
      · obtain ⟨tracked, -, same, closed | ⟨differs, -⟩⟩ := mem_masked.mp masked
        · rw [stores, decide_eq_false (not_not.mpr closed), Bool.false_and] at stored
          cases stored
        · exact differs same

private theorem nodup_ownView_iff (distinct : (accounts.map AccountInfo.pubkey).Nodup) (key : Pubkey) :
    (((ownView programs ownerMap slot accounts key).rows slot).map AccountRow.owner).Nodup ↔
      (((ownerMap.waiting slot).filter fun changed => decide (changed.pubkey = key)).map ChangedOwner.owner).Nodup ∧
        ∀ account ∈ accounts, account.pubkey = key → ∀ changed ∈ ownerMap.waiting slot, changed.pubkey = key →
          ApartFrom programs ownerMap slot account changed := by
  by_cases written : key ∈ accounts.map AccountInfo.pubkey
  · obtain ⟨account, member, rfl⟩ := List.mem_map.mp written
    rw [ownView, filter_own distinct member, List.foldl_cons, List.foldl_nil, nodup_owners_iff ⟨rfl, rfl⟩]
    refine and_congr_right fun _ => ⟨fun apart other isOther same changed waits own => ?_,
      fun apart changed waits => ?_⟩
    · obtain rfl := List.inj_on_of_nodup_map distinct isOther member same
      exact apart changed (List.mem_filter.mpr ⟨waits, decide_eq_true own⟩)
    · obtain ⟨waits, own⟩ := List.mem_filter.mp waits
      exact apart account member rfl changed waits (of_decide_eq_true own)
  · have none : accounts.filter (fun account => decide (account.pubkey = key)) = [] :=
      List.filter_eq_nil_iff.mpr fun account member equal =>
        written (List.mem_map.mpr ⟨account, member, of_decide_eq_true equal⟩)
    have owners : (((ownView programs ownerMap slot accounts key).rows slot).map AccountRow.owner) =
        ((ownerMap.waiting slot).filter fun changed => decide (changed.pubkey = key)).map ChangedOwner.owner := by
      rw [ownView, none]
      exact List.map_map
    rw [owners]
    refine ⟨fun nodup => ⟨nodup, fun account member same => ?_⟩, And.left⟩
    exact absurd (List.mem_map.mpr ⟨account, member, same⟩) written

theorem slot_of_mem_rows {row : AccountRow}
    (member : row ∈ (BlockWrites.of programs chunkSize maxChunkBytesData ownerMap slot accounts).rows) :
    row.slot = slot := by
  rcases List.mem_append.mp member with live | mask
  · rw [chunks_flatten] at live
    obtain ⟨account, -, rfl⟩ := List.mem_map.mp live
    rfl
  · exact (mem_saveClosedAccounts mask).2

/-- In a partitioned table the rows of a block have distinct keys exactly if its masks are apart. -/
theorem nodup_primaryKey_iff (partitioned : cfg.isOwnerPartitioned = true)
    (distinct : (accounts.map AccountInfo.pubkey).Nodup) :
    ((BlockWrites.of programs chunkSize maxChunkBytesData ownerMap slot accounts).rows.map cfg.primaryKey).Nodup ↔
      MasksApart programs ownerMap slot accounts := by
  have finer : ∀ first second, cfg.primaryKey first = cfg.primaryKey second → first.pubkey = second.pubkey :=
    fun first second same => congrArg (fun key => key.2.1) same
  have own : ∀ key, (((BlockWrites.of programs chunkSize maxChunkBytesData ownerMap slot accounts).rows.filter
      fun row => decide (row.pubkey = key)).map cfg.primaryKey).Nodup ↔
      (((ownView programs ownerMap slot accounts key).rows slot).map AccountRow.owner).Nodup := by
    intro key
    have keys : ((BlockWrites.of programs chunkSize maxChunkBytesData ownerMap slot accounts).rows.filter
        fun row => decide (row.pubkey = key)).map cfg.primaryKey =
        (((BlockWrites.of programs chunkSize maxChunkBytesData ownerMap slot accounts).rows.filter
          fun row => decide (row.pubkey = key)).map AccountRow.owner).map fun owner => (some owner, key, slot) := by
      rw [List.map_map]
      refine List.map_congr_left fun row member => ?_
      obtain ⟨inRows, same⟩ := List.mem_filter.mp member
      rw [PgOwnerPartitionsConfig.primaryKey, partitioned, if_pos rfl, of_decide_eq_true same, slot_of_mem_rows inRows]
      rfl
    rw [keys, filter_rows]
    exact List.nodup_map_iff fun first second same => Option.some.inj (congrArg Prod.fst same)
  rw [nodup_map_iff_filter finer]
  simp only [own, nodup_ownView_iff distinct]
  constructor
  · intro parts
    refine ⟨?_, fun account member changed waits same => (parts account.pubkey).2 account member rfl changed waits same⟩
    have waiting := (nodup_map_iff_filter (fun first second (same : id first = id second) =>
      congrArg ChangedOwner.pubkey same) (ownerMap.waiting slot)).mpr fun part => by
        rw [List.map_id]
        exact (parts part).1.of_map _
    rwa [List.map_id] at waiting
  · rintro ⟨waiting, apart⟩ part
    refine ⟨?_, fun account member own changed waits same => apart account member changed waits (same.trans own.symm)⟩
    refine (waiting.filter _).map_on fun first inFirst second inSecond same => ?_
    have firstOwn := of_decide_eq_true (List.mem_filter.mp inFirst).2
    have secondOwn := of_decide_eq_true (List.mem_filter.mp inSecond).2
    obtain ⟨pubkey, owner⟩ := first
    obtain ⟨pubkey', owner'⟩ := second
    exact (ChangedOwner.mk.injEq ..).mpr ⟨firstOwn.trans secondOwn.symm, same⟩

/-! ## The statements in any order -/

variable {table : KeyedTable cfg.primaryKey} {order : List (List AccountRow)}

theorem mem_rows_live {row : AccountRow}
    (member : row ∈ (BlockWrites.of programs chunkSize maxChunkBytesData ownerMap slot accounts).rows) :
    (∃ account ∈ accounts, stores programs account = true ∧ row = liveRow slot account) ∨ row.lamports = 0 := by
  rcases List.mem_append.mp member with live | mask
  · rw [chunks_flatten] at live
    obtain ⟨account, present, rfl⟩ := List.mem_map.mp live
    obtain ⟨present, stored⟩ := List.mem_filter.mp present
    exact Or.inl ⟨account, present, stored, rfl⟩
  · exact Or.inr (mem_saveClosedAccounts mask).1

theorem lamports_of_stores (stored : stores programs account = true) : account.lamports ≠ 0 :=
  of_decide_eq_true (Bool.and_eq_true_iff.mp stored).1

private theorem disjoint_statements (distinct : (accounts.map AccountInfo.pubkey).Nodup) :
    (BlockWrites.of programs chunkSize maxChunkBytesData ownerMap slot accounts).statements.Pairwise List.Disjoint := by
  have live : ((accounts.filter (stores programs)).map (liveRow slot)).Nodup := by
    have pubkeys : (((accounts.filter (stores programs)).map (liveRow slot)).map AccountRow.pubkey).Nodup := by
      rw [List.map_map]
      exact distinct.sublist (List.filter_sublist.map _)
    exact pubkeys.of_map _
  rw [← @chunks_flatten _ ownerMap _ chunkSize maxChunkBytesData, List.nodup_flatten] at live
  refine List.pairwise_append.mpr ⟨live.2, List.pairwise_singleton _ _,
    fun chunk isChunk masks isMasks row inChunk => ?_⟩
  rw [List.mem_singleton.mp isMasks]
  intro mask
  have inRows := List.mem_flatten.mpr ⟨chunk, isChunk, inChunk⟩
  rw [chunks_flatten] at inRows
  obtain ⟨account, present, rfl⟩ := List.mem_map.mp inRows
  exact lamports_of_stores (List.mem_filter.mp present).2 (mem_saveClosedAccounts mask).1

private theorem flatten_order
    (ordered : order.Perm (BlockWrites.of programs chunkSize maxChunkBytesData ownerMap slot accounts).statements) :
    order.flatten.Perm (BlockWrites.of programs chunkSize maxChunkBytesData ownerMap slot accounts).rows := by
  refine ordered.flatten.trans (List.Perm.of_eq ?_)
  rw [BlockWrites.statements, List.flatten_append, List.flatten_singleton]
  rfl

/-- The rows of other slots do not get in the way. -/
theorem nodup_keys_iff (fresh : ∀ row ∈ table.rows, row.slot ≠ slot) (atSlot : ∀ row ∈ order.flatten, row.slot = slot) :
    ((table.rows ++ order.flatten).map cfg.primaryKey).Nodup ↔ (order.flatten.map cfg.primaryKey).Nodup := by
  rw [List.map_append, List.nodup_append']
  refine ⟨fun all => all.2.1, fun own => ⟨table.keyed, own, fun key known member => ?_⟩⟩
  obtain ⟨row, inTable, rfl⟩ := List.mem_map.mp known
  obtain ⟨row', inOrder, same⟩ := List.mem_map.mp member
  refine fresh row inTable ?_
  rw [← atSlot row' inOrder]
  exact (congrArg (fun key => key.2.2) same).symm

/-- All rows and masks of a block are stored exactly if no two of them have one primary key. -/
theorem stored_iff (fresh : ∀ row ∈ table.rows, row.slot ≠ slot) (distinct : (accounts.map AccountInfo.pubkey).Nodup)
    (ordered : order.Perm (BlockWrites.of programs chunkSize maxChunkBytesData ownerMap slot accounts).statements) :
    (∀ row ∈ (BlockWrites.of programs chunkSize maxChunkBytesData ownerMap slot accounts).rows,
        row ∈ (table.insertAll order).rows) ↔
      ((BlockWrites.of programs chunkSize maxChunkBytesData ownerMap slot accounts).rows.map cfg.primaryKey).Nodup := by
  have flat := flatten_order ordered
  have disjoint : order.Pairwise List.Disjoint :=
    ordered.symm.pairwise (disjoint_statements distinct) fun apart => apart.symm
  have new : ∀ row ∈ order.flatten, row ∉ table.rows := fun row member known =>
    fresh row known (slot_of_mem_rows (flat.subset member))
  have atSlot : ∀ row ∈ order.flatten, row.slot = slot := fun row member => slot_of_mem_rows (flat.subset member)
  rw [← (flat.map cfg.primaryKey).nodup_iff, ← nodup_keys_iff fresh atSlot,
    ← KeyedTable.insertAll_complete_iff disjoint new]
  exact ⟨fun stored row member => stored row (flat.subset member),
    fun stored row member => stored row (flat.symm.subset member)⟩

/-- The live row and the mask of the old owner are both written. -/
theorem move_rows (distinct : (accounts.map AccountInfo.pubkey).Nodup) (member : account ∈ accounts)
    (stored : stores programs account = true) {item : AccountOwnerItem}
    (tracked : ownerMap.accounts.lookup account.pubkey = some item) (moved : item.owner ≠ account.owner)
    (earlier : item.slot < slot) :
    liveRow slot account ∈ (BlockWrites.of programs chunkSize maxChunkBytesData ownerMap slot accounts).rows ∧
      closedMask slot account.pubkey item.owner ∈
        (BlockWrites.of programs chunkSize maxChunkBytesData ownerMap slot accounts).rows := by
  have own := @filter_rows programs ownerMap slot chunkSize maxChunkBytesData accounts account.pubkey
  have moves : ∀ waiting updated closed,
      (⟨some item, waiting, updated, closed⟩ : SavingView).moved slot account = true := fun _ _ _ =>
    decide_eq_true ⟨moved, earlier⟩
  rw [ownView, filter_own distinct member, List.foldl_cons, List.foldl_nil, rows_save _ ⟨rfl, rfl⟩, tracked, stored,
    moves, if_pos rfl, Bool.and_self, if_pos rfl] at own
  have written := List.Subset.trans (List.Perm.of_eq own.symm).subset (List.filter_subset_self _)
  constructor
  · exact written (List.mem_append_left _ (List.mem_singleton_self _))
  · exact written (List.mem_append_right _ (List.mem_append_right _ (List.mem_append_right _
      (List.mem_singleton_self _))))

/-! ## The queries -/

section Move

/-- The database returns the live row before the masks of its slot. -/
def LiveFirst (versions : List AccountRow) (live : AccountRow) : Prop :=
  ∀ row ∈ versions, row.slot = live.slot → row.lamports = 0 → versions.idxOf live < versions.idxOf row

/-- A live row that may be returned first is returned exactly if it stands before the masks. -/
theorem getAccountInfo_eq_iff {versions : List AccountRow} {live : AccountRow} (positive : live.lamports ≠ 0)
    (descending : versions.Pairwise fun first second => second.slot ≤ first.slot) (present : live ∈ versions)
    (newest : ∀ row ∈ versions, row.slot < live.slot ∨ row = live ∨ row.slot = live.slot ∧ row.lamports = 0) :
    getAccountInfo versions = some live ↔ LiveFirst versions live := by
  cases versions with
  | nil => contradiction
  | cons first rest =>
    constructor
    · intro answer row member same closed
      obtain ⟨head, -⟩ := Option.filter_eq_some_iff.mp answer
      obtain rfl := Option.some.inj head
      have other : first ≠ row := by
        rintro rfl
        exact positive closed
      rw [List.idxOf_cons_self, List.idxOf_cons_ne _ other]
      exact Nat.succ_pos _
    · intro liveFirst
      have head : first = live := by
        rcases newest first List.mem_cons_self with older | same | ⟨same, closed⟩
        · rcases List.mem_cons.mp present with rfl | later
          · exact absurd older (lt_irrefl _)
          · exact absurd ((List.pairwise_cons.mp descending).1 live later) (not_le.mpr older)
        · exact same
        · have before := liveFirst first List.mem_cons_self same closed
          rw [List.idxOf_cons_self] at before
          exact absurd before (Nat.not_lt_zero _)
      rw [head, getAccountInfo, List.head?_cons]
      exact if_pos (decide_eq_true (Nat.pos_of_ne_zero positive))

variable {tables scanned : List AccountRow} {program : Pubkey} {latestSlot : ℕ} {live : AccountRow}

/-- A program shows a live row that is the newest of its account there. -/
theorem mem_getProgramAccounts (scans : ProgramAccounts tables program latestSlot scanned) (present : live ∈ tables)
    (own : live.owner = program) (reaches : live.slot ≤ latestSlot) (positive : live.lamports ≠ 0)
    (newest : ∀ row ∈ tables, row.owner = program → row.pubkey = live.pubkey → row.slot ≤ latestSlot →
      row.slot < live.slot ∨ row = live) : live ∈ getProgramAccounts scanned := by
  have one := oneNewest_distinctOn AccountRow.pubkey AccountRow.slot scanned
  have scannedLive : live ∈ scanned :=
    scans.symm.subset (List.mem_filter.mpr ⟨present, decide_eq_true ⟨own, reaches⟩⟩)
  obtain ⟨row, kept, same⟩ := one.complete live scannedLive
  obtain ⟨inTables, wanted⟩ := List.mem_filter.mp (scans.subset (one.subset kept))
  obtain ⟨ofProgram, below⟩ := of_decide_eq_true wanted
  rcases newest row inTables ofProgram same below with older | rfl
  · exact absurd (one.newest row kept live scannedLive same.symm) (not_le.mpr older)
  · exact List.mem_filter.mpr ⟨kept, decide_eq_true (Nat.pos_of_ne_zero positive)⟩

/-- A program does not show an account whose newest rows there are masks. -/
theorem pubkey_ne_of_masked (scans : ProgramAccounts tables program latestSlot scanned) {mask : AccountRow}
    (present : mask ∈ tables) (own : mask.owner = program) (reaches : mask.slot ≤ latestSlot)
    (newest : ∀ row ∈ tables, row.owner = program → row.pubkey = mask.pubkey → row.slot ≤ latestSlot →
      row.slot < mask.slot ∨ row.lamports = 0) :
    ∀ row ∈ getProgramAccounts scanned, row.pubkey ≠ mask.pubkey := by
  intro row shown same
  have one := oneNewest_distinctOn AccountRow.pubkey AccountRow.slot scanned
  obtain ⟨kept, positive⟩ := List.mem_filter.mp shown
  have scannedMask : mask ∈ scanned :=
    scans.symm.subset (List.mem_filter.mpr ⟨present, decide_eq_true ⟨own, reaches⟩⟩)
  obtain ⟨inTables, wanted⟩ := List.mem_filter.mp (scans.subset (one.subset kept))
  obtain ⟨ofProgram, below⟩ := of_decide_eq_true wanted
  rcases newest row inTables ofProgram same below with older | closed
  · exact absurd (one.newest row kept mask scannedMask same.symm) (not_le.mpr older)
  · rw [closed] at positive
    exact absurd (of_decide_eq_true positive) (lt_irrefl 0)

end Move

variable {snapshotAccounts later : List AccountRow} {latestSlot : ℕ}

/-- What the tables hold of an account from the block's slot on was written by the block. -/
theorem mem_tables_own (distinct : (accounts.map AccountInfo.pubkey).Nodup) (member : account ∈ accounts)
    (ordered : order.Perm (BlockWrites.of programs chunkSize maxChunkBytesData ownerMap slot accounts).statements)
    (quiet : ∀ row ∈ table.rows ++ later ++ snapshotAccounts, row.pubkey = account.pubkey → row.slot ≤ latestSlot →
      row.slot < slot ∨ row = liveRow slot account)
    {row : AccountRow} (inTables : row ∈ (table.insertAll order).rows ++ later ++ snapshotAccounts)
    (same : row.pubkey = account.pubkey) (below : row.slot ≤ latestSlot) :
    row.slot < slot ∨ row = liveRow slot account ∨
      row ∈ (BlockWrites.of programs chunkSize maxChunkBytesData ownerMap slot accounts).rows ∧
        row.slot = slot ∧ row.lamports = 0 := by
  have known : row ∈ table.rows ++ later ++ snapshotAccounts ∨ row ∈ order.flatten := by
    rw [List.append_assoc] at inTables ⊢
    rcases List.mem_append.mp inTables with inserted | after
    · exact (KeyedTable.mem_of_mem_insertAll inserted).imp (List.mem_append_left _) id
    · exact Or.inl (List.mem_append_right _ after)
  rcases known with before | inOrder
  · exact (quiet row before same below).imp id Or.inl
  · have written := (flatten_order ordered).subset inOrder
    rcases mem_rows_live written with ⟨other, present, -, rfl⟩ | closed
    · obtain rfl := List.inj_on_of_nodup_map distinct present member same
      exact Or.inr (Or.inl rfl)
    · exact Or.inr (Or.inr ⟨written, slot_of_mem_rows written, closed⟩)

/-- A moved account is stored whole and read under its new owner exactly if the tables are partitioned by owner, the
masks of the slot are apart, and the database returns the live row before the masks. The account has no other write
between the block and the slot that is read. -/
theorem moved_account_reads_iff (cfg : PgOwnerPartitionsConfig) (programs : AccountSelectorConfig)
    (chunkSize maxChunkBytesData : ℕ) {table : KeyedTable cfg.primaryKey} {ownerMap : AccountOwnerMap} {slot : ℕ}
    {accounts : List AccountInfo} (fresh : ∀ row ∈ table.rows, row.slot ≠ slot)
    (distinct : (accounts.map AccountInfo.pubkey).Nodup) {account : AccountInfo} (member : account ∈ accounts)
    (positive : account.lamports ≠ 0) (included : isOwnerIncluded programs account.owner = true)
    {item : AccountOwnerItem} (tracked : ownerMap.accounts.lookup account.pubkey = some item)
    (moved : item.owner ≠ account.owner) (earlier : item.slot < slot) {order : List (List AccountRow)}
    (ordered : order.Perm (BlockWrites.of programs chunkSize maxChunkBytesData ownerMap slot accounts).statements)
    (reaches : slot ≤ latestSlot)
    (quiet : ∀ row ∈ table.rows ++ later ++ snapshotAccounts, row.pubkey = account.pubkey → row.slot ≤ latestSlot →
      row.slot < slot ∨ row = liveRow slot account)
    {versions scannedOld scannedNew : List AccountRow}
    (byPubkey : AllVersions ((table.insertAll order).rows ++ later ++ snapshotAccounts) account.pubkey latestSlot
      versions)
    (byOld : ProgramAccounts ((table.insertAll order).rows ++ later ++ snapshotAccounts) item.owner latestSlot
      scannedOld)
    (byNew : ProgramAccounts ((table.insertAll order).rows ++ later ++ snapshotAccounts) account.owner latestSlot
      scannedNew) :
    ((∀ row ∈ (BlockWrites.of programs chunkSize maxChunkBytesData ownerMap slot accounts).rows,
          row ∈ (table.insertAll order).rows) ∧
        getAccountInfo versions = some (liveRow slot account) ∧
        liveRow slot account ∈ getProgramAccounts scannedNew ∧
        ∀ row ∈ getProgramAccounts scannedOld, row.pubkey ≠ account.pubkey) ↔
      cfg.isOwnerPartitioned = true ∧ MasksApart programs ownerMap slot accounts ∧
        LiveFirst versions (liveRow slot account) := by
  have stored : stores programs account = true := by
    rw [stores, included, decide_eq_true positive]
    rfl
  obtain ⟨liveWritten, maskWritten⟩ :=
    @move_rows programs ownerMap slot chunkSize maxChunkBytesData _ _ distinct member stored _ tracked moved earlier
  have whole := stored_iff fresh distinct ordered
  have own := fun (row : AccountRow) inTables same below =>
    @mem_tables_own _ _ _ _ _ _ _ _ _ _ _ _ _ distinct member ordered quiet row inTables same below
  have answers : (∀ row ∈ (BlockWrites.of programs chunkSize maxChunkBytesData ownerMap slot accounts).rows,
      row ∈ (table.insertAll order).rows) →
      (getAccountInfo versions = some (liveRow slot account) ↔ LiveFirst versions (liveRow slot account)) := by
    intro complete
    have present : liveRow slot account ∈ versions := byPubkey.rows.symm.subset (List.mem_filter.mpr
      ⟨List.mem_append_left _ (List.mem_append_left _ (complete _ liveWritten)), decide_eq_true ⟨rfl, reaches⟩⟩)
    refine getAccountInfo_eq_iff positive byPubkey.descending present fun row isVersion => ?_
    obtain ⟨inTables, wanted⟩ := List.mem_filter.mp (byPubkey.rows.subset isVersion)
    obtain ⟨same, below⟩ := of_decide_eq_true wanted
    exact (own row inTables same below).imp id (Or.imp id And.right)
  constructor
  · rintro ⟨complete, answer, -, -⟩
    have keys := whole.mp complete
    have partitioned : cfg.isOwnerPartitioned = true := by
      by_contra flat
      have same : cfg.primaryKey (liveRow slot account) =
          cfg.primaryKey (closedMask slot account.pubkey item.owner) := by
        rw [PgOwnerPartitionsConfig.primaryKey, PgOwnerPartitionsConfig.primaryKey, if_neg flat, if_neg flat]
        rfl
      have equal := List.inj_on_of_nodup_map keys liveWritten maskWritten same
      exact moved (congrArg AccountRow.owner equal).symm
    exact ⟨partitioned, (nodup_primaryKey_iff partitioned distinct).mp keys, (answers complete).mp answer⟩
  · rintro ⟨partitioned, apart, liveFirst⟩
    have complete := whole.mpr ((nodup_primaryKey_iff partitioned distinct).mpr apart)
    have keys := whole.mp complete
    have inTables : ∀ row ∈ (BlockWrites.of programs chunkSize maxChunkBytesData ownerMap slot accounts).rows,
        row ∈ (table.insertAll order).rows ++ later ++ snapshotAccounts := fun row written =>
      List.mem_append_left _ (List.mem_append_left _ (complete row written))
    refine ⟨complete, (answers complete).mpr liveFirst, ?_, ?_⟩
    · refine mem_getProgramAccounts byNew (inTables _ liveWritten) rfl reaches positive fun row present ofNew same
        below => ?_
      rcases own row present same below with older | live | ⟨written, atSlot, -⟩
      · exact Or.inl older
      · exact Or.inr live
      · refine Or.inr (List.inj_on_of_nodup_map keys written liveWritten ?_)
        rw [PgOwnerPartitionsConfig.primaryKey, ofNew, same, atSlot]
        rfl
    · refine pubkey_ne_of_masked byOld (inTables _ maskWritten) rfl reaches fun row present ofOld same below => ?_
      rcases own row present same below with older | rfl | ⟨-, -, closed⟩
      · exact Or.inl older
      · exact absurd ofOld.symm moved
      · exact Or.inr closed

/-- The newest row may be returned before all others of its slot. -/
theorem exists_allVersions_first {tables : List AccountRow} {pubkey : Pubkey} {first : AccountRow}
    (present : first ∈ tables.filter fun row => decide (row.pubkey = pubkey ∧ row.slot ≤ latestSlot))
    (newest : ∀ row ∈ tables.filter fun row => decide (row.pubkey = pubkey ∧ row.slot ≤ latestSlot),
      row.slot ≤ first.slot) : ∃ rest, AllVersions tables pubkey latestSlot (first :: rest) := by
  generalize listed : (tables.filter fun row => decide (row.pubkey = pubkey ∧ row.slot ≤ latestSlot)) = matching
    at present newest
  let rest := (matching.erase first).insertionSort fun row other => other.slot ≤ row.slot
  have others : rest.Perm (matching.erase first) := List.perm_insertionSort _ _
  have sorted : rest.Pairwise fun row other => other.slot ≤ row.slot := List.pairwise_insertionSort _ _
  refine ⟨rest, ?_, List.pairwise_cons.mpr ⟨fun row member => ?_, sorted⟩⟩
  · rw [listed]
    exact (others.cons first).trans (List.perm_cons_erase present).symm
  · exact newest row (List.mem_of_mem_erase (others.subset member))

/-- The rows of an account may be returned in some order. -/
theorem exists_allVersions (tables : List AccountRow) (pubkey : Pubkey) (latestSlot : ℕ) :
    ∃ versions, AllVersions tables pubkey latestSlot versions :=
  ⟨_, List.perm_insertionSort (fun row other => other.slot ≤ row.slot) _, List.pairwise_insertionSort _ _⟩

/-- The move of an account between included programs is never stored whole and read under its new owner in every order
of the statements and in every order of the rows: without partitions it is not stored whole, and with them the mask
may come first. -/
theorem moved_account_is_not_always_read (cfg : PgOwnerPartitionsConfig) (programs : AccountSelectorConfig)
    (chunkSize maxChunkBytesData : ℕ) {table : KeyedTable cfg.primaryKey} {ownerMap : AccountOwnerMap} {slot : ℕ}
    {accounts : List AccountInfo} (fresh : ∀ row ∈ table.rows, row.slot ≠ slot)
    (distinct : (accounts.map AccountInfo.pubkey).Nodup) {account : AccountInfo} (member : account ∈ accounts)
    (positive : account.lamports ≠ 0) (included : isOwnerIncluded programs account.owner = true)
    {item : AccountOwnerItem} (tracked : ownerMap.accounts.lookup account.pubkey = some item)
    (moved : item.owner ≠ account.owner) (earlier : item.slot < slot) (reaches : slot ≤ latestSlot)
    (quiet : ∀ row ∈ table.rows ++ later ++ snapshotAccounts, row.pubkey = account.pubkey → row.slot ≤ latestSlot →
      row.slot < slot ∨ row = liveRow slot account) :
    ¬ ∀ order : List (List AccountRow),
      order.Perm (BlockWrites.of programs chunkSize maxChunkBytesData ownerMap slot accounts).statements →
        ∀ versions scannedOld scannedNew,
          AllVersions ((table.insertAll order).rows ++ later ++ snapshotAccounts) account.pubkey latestSlot versions →
          ProgramAccounts ((table.insertAll order).rows ++ later ++ snapshotAccounts) item.owner latestSlot
            scannedOld →
          ProgramAccounts ((table.insertAll order).rows ++ later ++ snapshotAccounts) account.owner latestSlot
            scannedNew →
          (∀ row ∈ (BlockWrites.of programs chunkSize maxChunkBytesData ownerMap slot accounts).rows,
              row ∈ (table.insertAll order).rows) ∧
            getAccountInfo versions = some (liveRow slot account) ∧
            liveRow slot account ∈ getProgramAccounts scannedNew ∧
            ∀ row ∈ getProgramAccounts scannedOld, row.pubkey ≠ account.pubkey := by
  intro reads
  have stored : stores programs account = true := by
    rw [stores, included, decide_eq_true positive]
    rfl
  obtain ⟨-, maskWritten⟩ :=
    @move_rows programs ownerMap slot chunkSize maxChunkBytesData _ _ distinct member stored _ tracked moved earlier
  have ordered := List.Perm.refl (BlockWrites.of programs chunkSize maxChunkBytesData ownerMap slot accounts).statements
  have inOrder := reads _ ordered
  -- The block is stored whole, so that the mask is there to be returned first.
  obtain ⟨versions, someOrder⟩ := exists_allVersions ((table.insertAll
    (BlockWrites.of programs chunkSize maxChunkBytesData ownerMap slot accounts).statements).rows ++ later ++
      snapshotAccounts) account.pubkey latestSlot
  have complete := (inOrder versions _ _ someOrder (List.Perm.refl _) (List.Perm.refl _)).1
  have present : closedMask slot account.pubkey item.owner ∈ ((table.insertAll
      (BlockWrites.of programs chunkSize maxChunkBytesData ownerMap slot accounts).statements).rows ++ later ++
        snapshotAccounts).filter fun row => decide (row.pubkey = account.pubkey ∧ row.slot ≤ latestSlot) :=
    List.mem_filter.mpr ⟨List.mem_append_left _ (List.mem_append_left _ (complete _ maskWritten)),
      decide_eq_true ⟨rfl, reaches⟩⟩
  obtain ⟨rest, maskFirst⟩ := exists_allVersions_first present fun row listed => by
    obtain ⟨inTables, wanted⟩ := List.mem_filter.mp listed
    obtain ⟨same, below⟩ := of_decide_eq_true wanted
    rcases mem_tables_own distinct member ordered quiet inTables same below with older | rfl | ⟨-, atSlot, -⟩
    · exact older.le
    · exact le_refl slot
    · exact atSlot.le
  have all := inOrder _ _ _ maskFirst (List.Perm.refl _) (List.Perm.refl _)
  obtain ⟨-, -, liveFirst⟩ := (moved_account_reads_iff cfg programs chunkSize maxChunkBytesData fresh distinct member
    positive included tracked moved earlier ordered reaches quiet maskFirst (List.Perm.refl _)
    (List.Perm.refl _)).mp all
  have before := liveFirst _ List.mem_cons_self rfl rfl
  rw [List.idxOf_cons_self] at before
  exact absurd before (Nat.not_lt_zero _)

section Examples

/-- An account that the map holds under program 5, since slot 1. -/
private def heldSince : AccountOwnerMap := ⟨AList.insert 1 ⟨5, 1⟩ ∅, ∅⟩

/-- It moves to program 6 at slot 2. -/
private def moving : BlockWrites := .of ⟨[5, 6], []⟩ 100 1000 heldSince 2 [⟨1, 6, 10, [7]⟩]

private def beforeMove (cfg : PgOwnerPartitionsConfig) : KeyedTable cfg.primaryKey :=
  ⟨[⟨1, 5, 10, 1, []⟩], List.nodup_singleton _⟩

private def afterMove : List AccountRow := ((beforeMove ⟨true, false⟩).insertAll moving.statements).rows ++ [] ++ []

/-- In partitioned tables too, the move is not read in every order. -/
theorem moved_account_is_not_always_read_when_partitioned :
    ¬ ∀ order : List (List AccountRow), order.Perm moving.statements → ∀ versions scannedOld scannedNew,
      AllVersions (((beforeMove ⟨true, false⟩).insertAll order).rows ++ [] ++ []) 1 2 versions →
      ProgramAccounts (((beforeMove ⟨true, false⟩).insertAll order).rows ++ [] ++ []) 5 2 scannedOld →
      ProgramAccounts (((beforeMove ⟨true, false⟩).insertAll order).rows ++ [] ++ []) 6 2 scannedNew →
      (∀ row ∈ moving.rows, row ∈ ((beforeMove ⟨true, false⟩).insertAll order).rows) ∧
        getAccountInfo versions = some ⟨1, 6, 10, 2, [7]⟩ ∧
        (⟨1, 6, 10, 2, [7]⟩ : AccountRow) ∈ getProgramAccounts scannedNew ∧
        ∀ row ∈ getProgramAccounts scannedOld, row.pubkey ≠ 1 := by
  have fresh : ∀ row ∈ (beforeMove ⟨true, false⟩).rows, row.slot ≠ 2 := by decide
  have quiet : ∀ row ∈ (beforeMove ⟨true, false⟩).rows ++ [] ++ [], row.pubkey = 1 → row.slot ≤ 2 →
      row.slot < 2 ∨ row = liveRow 2 ⟨1, 6, 10, [7]⟩ := by decide
  have held : heldSince.accounts.lookup 1 = some ⟨5, 1⟩ := by decide
  have distinct : ([⟨1, 6, 10, [7]⟩].map AccountInfo.pubkey).Nodup := by decide
  have included : isOwnerIncluded ⟨[5, 6], []⟩ 6 = true := by decide
  have moved : (⟨5, 1⟩ : AccountOwnerItem).owner ≠ 6 := by decide
  exact moved_account_is_not_always_read ⟨true, false⟩ ⟨[5, 6], []⟩ 100 1000 fresh distinct
    (List.mem_singleton_self _) (Nat.succ_ne_zero 9) included held moved (Nat.lt_succ_self 1) (le_refl 2) quiet

/-- With one key for both rows the block is never stored whole; with two of them the account is not found where the
database returns the mask first. -/
theorem moved_account_is_lost :
    (∀ order ∈ [moving.statements, moving.statements.reverse],
        ¬∀ row ∈ moving.rows, row ∈ ((beforeMove ⟨false, false⟩).insertAll order).rows) ∧
      ∃ versions, AllVersions afterMove 1 2 versions ∧ getAccountInfo versions = none := by
  refine ⟨by decide +kernel, [⟨1, 5, 0, 2, []⟩, ⟨1, 6, 10, 2, [7]⟩, ⟨1, 5, 10, 1, []⟩], ⟨?_, ?_⟩, by decide⟩
  · decide +kernel
  · decide +kernel

end Examples

end Cloudbreak.Model.SaveBlock
