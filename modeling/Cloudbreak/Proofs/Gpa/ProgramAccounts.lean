import Cloudbreak.Model.Gpa.ProgramAccounts
import Cloudbreak.Proofs.Cleanup.DeleteRuns
import Cloudbreak.Proofs.Filters.SqlFilters

/-! # The accounts of a program, as the newest writes show them

The predicates are applied to every stored version of an account, before the newest is chosen. So a version that is
superseded is returned as long as it is stored and accepted, and no newer version under the program is accepted as
well. Besides, the predicates must say of the newest versions what the filters say. Nothing else goes wrong where each
account is written in the order of the slots, or late under the owner that it keeps.
-/

namespace Cloudbreak.Model.Gpa

open Cloudbreak.ToMathlib
open Cleanup (Cleaner CleanerEvent InTime InTimeRun Shows Sound Write blockWrites mem_blockWrites row_writeOf)
open Filters (MemcmpClient RpcFilterType SqlFilters Table allows emptyPastEnd evalAll offsetFits withDelegateTag)
open SaveBlock (AccountRow BlockWrites PgOwnerPartitionsConfig Store getProgramAccounts liveRow)
open Snapshot (AccountSelectorConfig)

/-! ## The request -/

section Request

variable {Memcmp : Type} {client : MemcmpClient Memcmp} {program : Pubkey} {filters : List (RpcFilterType Memcmp)}
  {label : String} {sql : SqlFilters} {data : List UInt8}

/-- The filters of the request hold of some data. -/
def satisfies (client : MemcmpClient Memcmp) (filters : List (RpcFilterType Memcmp)) (data : List UInt8) : Bool :=
  filters.all (allows client data)

/-- The predicates of the request hold of some data: those of the filters, of which an empty one also holds behind the
end of the data, and the one of the tag that a filter for a delegate gets. -/
def sqlAccepts (client : MemcmpClient Memcmp) (program : Pubkey) (filters : List (RpcFilterType Memcmp))
    (data : List UInt8) : Bool :=
  (withDelegateTag client program filters).all fun filter => allows client data filter || emptyPastEnd client data filter

/-- No empty filter lies behind the end of data that nothing else rejects, and what satisfies a filter for a delegate
has its tag. -/
def Understood (client : MemcmpClient Memcmp) (program : Pubkey) (filters : List (RpcFilterType Memcmp))
    (data : List UInt8) : Prop :=
  ((∀ filter ∈ filters, emptyPastEnd client data filter = false) ∨
      Filters.Rejects client data (withDelegateTag client program filters)) ∧
    (satisfies client filters data = true → satisfies client (withDelegateTag client program filters) data = true)

private theorem sqlAccepts_eq_satisfies_iff (documented : client.Documented) :
    sqlAccepts client program filters data = satisfies client filters data ↔ Understood client program filters data := by
  have meant : sqlAccepts client program filters data = satisfies client (withDelegateTag client program filters) data ↔
      (∀ filter ∈ filters, emptyPastEnd client data filter = false) ∨
        Filters.Rejects client data (withDelegateTag client program filters) := by
    rw [← Filters.forall_withDelegateTag program (fun filter => emptyPastEnd client data filter = false)
      (Filters.emptyPastEnd_delegateTag documented)]
    exact Filters.all_or_eq_all_iff fun filter _ => Filters.allows_of_emptyPastEnd filter
  have fewer : satisfies client (withDelegateTag client program filters) data = true →
      satisfies client filters data = true := by
    rw [satisfies, withDelegateTag, List.all_append, Bool.and_eq_true_iff]
    exact And.left
  have weaker : satisfies client (withDelegateTag client program filters) data = true →
      sqlAccepts client program filters data = true := by
    rw [satisfies, sqlAccepts, List.all_eq_true, List.all_eq_true]
    exact fun all filter member => Bool.or_eq_true_iff.mpr (Or.inl (all filter member))
  rw [Understood, ← meant]
  constructor
  · intro same
    have tagged : satisfies client filters data = true →
        satisfies client (withDelegateTag client program filters) data = true := by
      intro given
      have accepted := same.trans given
      rw [sqlAccepts, List.all_eq_true] at accepted
      rw [satisfies, List.all_eq_true] at given ⊢
      intro filter member
      have weak := accepted filter member
      rcases List.mem_append.mp member with requested | added
      · exact given filter requested
      · split_ifs at added with adds
        · rw [List.mem_singleton.mp added] at weak ⊢
          rwa [Filters.emptyPastEnd_delegateTag documented, Bool.or_false] at weak
        · cases added
    refine ⟨Bool.eq_iff_iff.mpr ⟨fun accepted => tagged (same ▸ accepted), weaker⟩, tagged⟩
  · rintro ⟨same, tagged⟩
    rw [same]
    exact Bool.eq_iff_iff.mpr ⟨fewer, tagged⟩

private theorem isAccepted_iff (documented : client.Documented)
    (built : SqlFilters.build client program filters label = some (.ok sql)) :
    IsAccepted sql ↔ ∀ filter ∈ filters, offsetFits client filter = true := by
  rw [← Filters.forall_withDelegateTag program (fun filter => offsetFits client filter = true)
    (Filters.offsetFits_delegateTag documented), ← List.all_eq_true]
  constructor
  · intro accepted
    have value := accepted .accounts []
    rw [Filters.evalAll_of_build documented built] at value
    by_contra overflows
    rw [if_neg overflows] at value
    cases value
  · intro fits table data
    rw [Filters.evalAll_of_build documented built, if_pos fits]
    rfl

/-- Both tables are filtered alike. -/
theorem keeps_iff (documented : client.Documented)
    (built : SqlFilters.build client program filters label = some (.ok sql))
    (fits : ∀ filter ∈ filters, offsetFits client filter = true) {latestSlot : ℕ} {table : Table} {row : AccountRow} :
    keeps sql program latestSlot table row = true ↔
      row.owner = program ∧ row.slot ≤ latestSlot ∧ sqlAccepts client program filters row.data = true := by
  have all := (Filters.forall_withDelegateTag program (fun filter => offsetFits client filter = true)
    (Filters.offsetFits_delegateTag documented)).mpr fits
  rw [keeps, Filters.evalAll_of_build documented built, if_pos (List.all_eq_true.mpr all), Bool.and_eq_true_iff,
    Bool.and_eq_true_iff, decide_eq_true_iff, decide_eq_true_iff, decide_eq_true_iff, Option.some.injEq, sqlAccepts]

private theorem ProgramScan.mem_scanned (documented : client.Documented)
    (built : SqlFilters.build client program filters label = some (.ok sql))
    (fits : ∀ filter ∈ filters, offsetFits client filter = true) {cfg : PgOwnerPartitionsConfig} {store : Store cfg}
    {latestSlot : ℕ} {scanned : List AccountRow} (scan : ProgramScan sql store program latestSlot scanned)
    {row : AccountRow} :
    row ∈ scanned ↔ row ∈ store.accounts.rows ++ store.snapshotAccounts ∧ row.owner = program ∧
      row.slot ≤ latestSlot ∧ sqlAccepts client program filters row.data = true := by
  rw [List.Perm.mem_iff scan, List.mem_append, List.mem_append, List.mem_filter, List.mem_filter,
    keeps_iff documented built fits, keeps_iff documented built fits, or_and_right]

end Request

/-! ## Masks -/

variable {cfg : PgOwnerPartitionsConfig} {programs : AccountSelectorConfig} {cleaner next : Cleaner cfg}
  {writes : List Write} {chunkSize maxChunkBytesData slot latestSlot : ℕ} {accounts : List AccountInfo}

/-- No mask is of the owner that its account is live under at its slot. -/
def MasksElsewhere (writes : List Write) (tables : List AccountRow) : Prop :=
  ∀ mask ∈ tables, mask.lamports = 0 → ∀ write ∈ writes, write.pubkey = mask.pubkey → write.slot = mask.slot →
    ∀ row ∈ write.row, row.owner ≠ mask.owner

theorem MasksElsewhere.sub {tables left : List AccountRow} (elsewhere : MasksElsewhere writes tables)
    (sub : left ⊆ tables) : MasksElsewhere writes left := fun mask member => elsewhere mask (sub member)

/-- The rows that a block writes for an account have different owners. -/
theorem owner_ne_of_mask (sound : Sound true programs writes cleaner)
    (inTime : InTime true programs writes cleaner.store slot accounts)
    (distinct : (accounts.map AccountInfo.pubkey).Nodup) {mask : AccountRow}
    (member : mask ∈ (BlockWrites.of programs chunkSize maxChunkBytesData cleaner.store.ownerMap slot accounts).rows)
    (closed : mask.lamports = 0) {account : AccountInfo} (inBlock : account ∈ accounts)
    (stored : SaveBlock.stores programs account = true) (same : account.pubkey = mask.pubkey) :
    account.owner ≠ mask.owner := by
  have owners : (((BlockWrites.of programs chunkSize maxChunkBytesData cleaner.store.ownerMap slot
      accounts).rows.filter fun row => decide (row.pubkey = account.pubkey)).map AccountRow.owner).Nodup := by
    rw [Cleanup.rows_own ((sound.ownerMap rfl).settled slot) distinct inBlock]
    exact (SaveBlock.nodup_owners_iff ⟨rfl, rfl⟩).mpr ⟨List.nodup_nil, fun _ waits => by contradiction⟩
  have live := (sound.added_withMap inTime distinct chunkSize maxChunkBytesData).live account inBlock stored
  intro sameOwner
  have equal := List.inj_on_of_nodup_map owners (List.mem_filter.mpr ⟨live, decide_eq_true rfl⟩)
    (List.mem_filter.mpr ⟨member, decide_eq_true same.symm⟩) sameOwner
  rw [← equal] at closed
  exact SaveBlock.lamports_of_stores stored closed

theorem MasksElsewhere.saveBlock (sound : Sound true programs writes cleaner)
    (elsewhere : MasksElsewhere writes cleaner.tables)
    (inTime : InTime true programs writes cleaner.store slot accounts)
    (distinct : (accounts.map AccountInfo.pubkey).Nodup) {rows : List AccountRow}
    (origin : ∀ row ∈ rows, row ∈ cleaner.tables ∨
      row ∈ (BlockWrites.of programs chunkSize maxChunkBytesData cleaner.store.ownerMap slot accounts).rows) :
    MasksElsewhere (writes ++ blockWrites true programs slot accounts) rows := by
  intro mask member closed write isWrite same atSlot row shows
  rcases origin mask member with old | new
  · rcases List.mem_append.mp isWrite with before | now
    · exact elsewhere mask old closed write before same atSlot row shows
    · obtain ⟨account, inBlock, -, rfl⟩ := mem_blockWrites.mp now
      obtain ⟨earlier, isEarlier, earlierKey, earlierSlot, -⟩ := sound.written mask old
      exact absurd (earlierSlot.trans atSlot.symm) (inTime.apart inBlock isEarlier (earlierKey.trans same.symm))
  · obtain ⟨maskSlot, account, inBlock, -, maskKey, -⟩ :=
      (sound.added_withMap inTime distinct chunkSize maxChunkBytesData).source mask new
    rcases List.mem_append.mp isWrite with before | now
    · exact absurd (atSlot.trans maskSlot) (inTime.apart inBlock before (same.trans maskKey.symm))
    · obtain ⟨other, otherInBlock, -, rfl⟩ := mem_blockWrites.mp now
      obtain ⟨stored, rfl⟩ := row_writeOf.mp shows
      exact owner_ne_of_mask sound inTime distinct new closed otherInBlock stored same

theorem MasksElsewhere.step (sound : Sound true programs writes cleaner)
    (elsewhere : MasksElsewhere writes cleaner.tables) {event : CleanerEvent}
    (inTime : event.SavedInTime true programs chunkSize maxChunkBytesData writes cleaner)
    (moves : cleaner.step true programs chunkSize maxChunkBytesData event = some next) :
    MasksElsewhere (writes ++ event.writes true programs) next.tables := by
  obtain ⟨slot, blockTime, accounts, executed, saved, rfl, saves, rfl⟩ | quiet := Cleanup.step_cases moves
  · obtain ⟨distinct, inTime, whole, keyed⟩ := inTime
    have origin : ∀ row ∈ saved.1.accounts.rows ++ saved.1.snapshotAccounts, row ∈ cleaner.tables ∨
        row ∈ (BlockWrites.of programs chunkSize maxChunkBytesData cleaner.store.ownerMap slot accounts).rows := by
      intro row member
      obtain ⟨holds, kept⟩ := Cleanup.mem_rows_of_saveBlock whole keyed saves
      rcases List.mem_append.mp member with inAccounts | inSnapshot
      · exact ((holds row).mp inAccounts).imp (List.mem_append_left _) Cleanup.mem_rows_of_mem_statements
      · exact Or.inl (List.mem_append_right _ (kept ▸ inSnapshot))
    exact elsewhere.saveBlock sound inTime distinct origin
  -- Every other event writes nothing and adds no row.
  have kept : event.writes true programs = [] ∧ next.tables ⊆ cleaner.tables := by
    obtain ⟨slot, rfl, rfl⟩ | ⟨items, rfl, -, rfl⟩ | ⟨rfl, rfl⟩ | ⟨chunk, drain, rfl, -, -, rfl⟩ |
      ⟨chunk, drain, rfl, -, -, -, rfl⟩ := quiet
    · exact ⟨rfl, List.Subset.refl _⟩
    · exact ⟨rfl, List.Subset.refl _⟩
    · exact ⟨rfl, List.Subset.refl _⟩
    · exact ⟨rfl, List.append_subset.mpr ⟨List.subset_append_left _ _,
        List.subset_append_of_subset_right _ (Cleanup.deleteRows_subset _ _)⟩⟩
    · exact ⟨rfl, List.append_subset.mpr ⟨List.subset_append_of_subset_left _ (Cleanup.deleteRows_subset _ _),
        List.subset_append_right _ _⟩⟩
  rw [kept.1, List.append_nil]
  exact elsewhere.sub kept.2

theorem MasksElsewhere.run {first : Cleaner cfg} (sound : Sound true programs writes first)
    (elsewhere : MasksElsewhere writes first.tables) {events : List CleanerEvent}
    (run : Run first (Cleaner.step true programs chunkSize maxChunkBytesData)
      (InTimeRun true programs chunkSize maxChunkBytesData writes) events cleaner) :
    MasksElsewhere (writes ++ events.flatMap (CleanerEvent.writes true programs)) cleaner.tables := by
  induction run with
  | start =>
    rw [List.flatMap_nil, List.append_nil]
    exact elsewhere
  | step before inTime moves ih =>
    have after := ih.step (sound.run before) inTime moves
    rwa [List.flatMap_append, List.flatMap_singleton, ← List.append_assoc]

/-! ## The answer -/

/-- A program has one row of an account at a slot where it has a live one. -/
theorem MasksElsewhere.eq_of_live (sound : Sound true programs writes cleaner)
    (elsewhere : MasksElsewhere writes cleaner.tables) {row other : AccountRow} (present : row ∈ cleaner.tables)
    (otherPresent : other ∈ cleaner.tables) (live : row.lamports ≠ 0) (pubkey : other.pubkey = row.pubkey)
    (owner : other.owner = row.owner) (slot : other.slot = row.slot) : other = row := by
  obtain ⟨write, isWrite, key, atSlot, shows⟩ := sound.written row present
  have otherLive : other.lamports ≠ 0 := fun closed =>
    elsewhere other otherPresent closed write isWrite (key.trans pubkey.symm) (atSlot.trans slot.symm) row (shows live)
      owner.symm
  obtain ⟨source, isSource, sourceKey, sourceSlot, sourceShows⟩ := sound.written other otherPresent
  obtain rfl := sound.distinct source isSource write isWrite (sourceKey.trans (pubkey.trans key.symm))
    (sourceSlot.trans (slot.trans atSlot.symm))
  exact Option.some.inj ((sourceShows otherLive).symm.trans (shows live))

/-- A superseded version that the predicates accept has a newer version that they accept as well. -/
def NoStaleVersions (accepted : List UInt8 → Bool) (program : Pubkey) (latestSlot : ℕ) (writes : List Write)
    (tables : List AccountRow) : Prop :=
  ∀ row ∈ tables, row.owner = program → row.slot ≤ latestSlot → row.lamports ≠ 0 → accepted row.data = true →
    Shows writes latestSlot row ∨ ∃ newer ∈ tables, newer.pubkey = row.pubkey ∧ newer.owner = program ∧
      row.slot < newer.slot ∧ newer.slot ≤ latestSlot ∧ accepted newer.data = true

theorem mem_getProgramAccounts {scanned : List AccountRow} {row : AccountRow} :
    row ∈ getProgramAccounts scanned ↔
      row ∈ distinctOn AccountRow.pubkey AccountRow.slot scanned ∧ row.lamports ≠ 0 := by
  rw [getProgramAccounts, List.mem_filter, decide_eq_true_iff, gt_iff_lt, Nat.pos_iff_ne_zero]

section Answer

variable {accepted wanted : List UInt8 → Bool} {program : Pubkey} {scanned : List AccountRow}

/-- The row that the newest write shows is returned where it is accepted. -/
theorem mem_of_shows (sound : Sound true programs writes cleaner) (elsewhere : MasksElsewhere writes cleaner.tables)
    (above : cleaner.frontier ≤ latestSlot)
    (scans : ∀ row, row ∈ scanned ↔ row ∈ cleaner.tables ∧ row.owner = program ∧ row.slot ≤ latestSlot ∧
      accepted row.data = true) {row : AccountRow} (shown : Shows writes latestSlot row) (owner : row.owner = program)
    (isAccepted : accepted row.data = true) : row ∈ getProgramAccounts scanned := by
  have one := oneNewest_distinctOn AccountRow.pubkey AccountRow.slot scanned
  have present := sound.stored latestSlot above row shown
  obtain ⟨write, isLast, shows⟩ := shown
  obtain ⟨key, atSlot, live, -⟩ := sound.own write isLast.mem row shows
  have scannedRow := (scans row).mpr ⟨present, owner, atSlot ▸ isLast.reaches, isAccepted⟩
  obtain ⟨newest, kept, pubkey⟩ := one.complete row scannedRow
  obtain ⟨newestPresent, newestOwner, newestReaches, -⟩ := (scans newest).mp (one.subset kept)
  obtain ⟨source, isSource, sourceKey, sourceSlot, -⟩ := sound.written newest newestPresent
  have notNewer : newest.slot ≤ row.slot := by
    rw [← sourceSlot, atSlot]
    exact isLast.last source isSource (sourceKey.trans (pubkey.trans key)) (sourceSlot ▸ newestReaches)
  have sameSlot := le_antisymm notNewer (one.newest newest kept row scannedRow pubkey.symm)
  obtain rfl := elsewhere.eq_of_live sound present newestPresent live pubkey (newestOwner.trans owner.symm) sameSlot
  exact mem_getProgramAccounts.mpr ⟨kept, live⟩

/-- All that is returned is shown exactly if no accepted version is stale. -/
theorem shows_of_mem_iff (sound : Sound true programs writes cleaner)
    (elsewhere : MasksElsewhere writes cleaner.tables)
    (scans : ∀ row, row ∈ scanned ↔ row ∈ cleaner.tables ∧ row.owner = program ∧ row.slot ≤ latestSlot ∧
      accepted row.data = true) :
    (∀ row ∈ getProgramAccounts scanned, Shows writes latestSlot row) ↔
      NoStaleVersions accepted program latestSlot writes cleaner.tables := by
  have one := oneNewest_distinctOn AccountRow.pubkey AccountRow.slot scanned
  constructor
  · intro shown row present owner reaches live isAccepted
    have scannedRow := (scans row).mpr ⟨present, owner, reaches, isAccepted⟩
    obtain ⟨newest, kept, pubkey⟩ := one.complete row scannedRow
    obtain ⟨newestPresent, newestOwner, newestReaches, newestAccepted⟩ := (scans newest).mp (one.subset kept)
    rcases (one.newest newest kept row scannedRow pubkey.symm).eq_or_lt with same | newer
    · obtain rfl := elsewhere.eq_of_live sound present newestPresent live pubkey (newestOwner.trans owner.symm)
        same.symm
      exact Or.inl (shown newest (mem_getProgramAccounts.mpr ⟨kept, live⟩))
    · exact Or.inr ⟨newest, newestPresent, pubkey, newestOwner, newer, newestReaches, newestAccepted⟩
  · intro fresh row returned
    obtain ⟨kept, live⟩ := mem_getProgramAccounts.mp returned
    obtain ⟨present, owner, reaches, isAccepted⟩ := (scans row).mp (one.subset kept)
    rcases fresh row present owner reaches live isAccepted with shown | ⟨newer, isNewer, pubkey, newerOwner, above,
      newerReaches, newerAccepted⟩
    · exact shown
    · have scannedNewer := (scans newer).mpr ⟨isNewer, newerOwner, newerReaches, newerAccepted⟩
      exact absurd (one.newest row kept newer scannedNewer pubkey) (not_le.mpr above)

private theorem exact_iff (sound : Sound true programs writes cleaner)
    (elsewhere : MasksElsewhere writes cleaner.tables)
    (above : cleaner.frontier ≤ latestSlot)
    (scans : ∀ row, row ∈ scanned ↔ row ∈ cleaner.tables ∧ row.owner = program ∧ row.slot ≤ latestSlot ∧
      accepted row.data = true) :
    (∀ row, row ∈ getProgramAccounts scanned ↔
        Shows writes latestSlot row ∧ row.owner = program ∧ wanted row.data = true) ↔
      (∀ row, Shows writes latestSlot row → row.owner = program → accepted row.data = wanted row.data) ∧
        NoStaleVersions accepted program latestSlot writes cleaner.tables := by
  have one := oneNewest_distinctOn AccountRow.pubkey AccountRow.slot scanned
  have ofMem : ∀ row ∈ getProgramAccounts scanned, row.owner = program ∧ accepted row.data = true := fun row returned =>
    have scannedRow := (scans row).mp (one.subset (mem_getProgramAccounts.mp returned).1)
    ⟨scannedRow.2.1, scannedRow.2.2.2⟩
  rw [← shows_of_mem_iff sound elsewhere scans]
  constructor
  · refine fun exact_ => ⟨fun row shown owner => Bool.eq_iff_iff.mpr ⟨fun isAccepted => ?_, fun isWanted => ?_⟩,
      fun row returned => ((exact_ row).mp returned).1⟩
    · exact ((exact_ row).mp (mem_of_shows sound elsewhere above scans shown owner isAccepted)).2.2
    · exact (ofMem row ((exact_ row).mpr ⟨shown, owner, isWanted⟩)).2
  · rintro ⟨agree, fresh⟩ row
    constructor
    · intro returned
      obtain ⟨owner, isAccepted⟩ := ofMem row returned
      have shown := fresh row returned
      exact ⟨shown, owner, agree row shown owner ▸ isAccepted⟩
    · rintro ⟨shown, owner, isWanted⟩
      exact mem_of_shows sound elsewhere above scans shown owner ((agree row shown owner).trans isWanted)

end Answer

private theorem nodup_getProgramAccounts (scanned : List AccountRow) :
    ((getProgramAccounts scanned).map AccountRow.pubkey).Nodup :=
  (oneNewest_distinctOn AccountRow.pubkey AccountRow.slot scanned).distinct.sublist (List.filter_sublist.map _)

private theorem masksElsewhere_of_loaded {store : Store cfg} (loaded : Cleanup.Loaded programs store) (frontier : ℕ) :
    MasksElsewhere (Cleanup.snapshotWrites store) (Cleaner.start store frontier).tables := by
  intro mask member closed
  rw [Cleaner.tables, Cleaner.start, loaded.accounts, List.nil_append] at member
  exact absurd closed (loaded.live mask member).1

/-- The request is built and its statement runs, and however the rows are scanned, the accounts of the program whose
newest writes satisfy the filters are returned, each once and as that write has it. -/
def IsExact {Memcmp : Type} (client : MemcmpClient Memcmp) (program : Pubkey) (filters : List (RpcFilterType Memcmp))
    (label : String) (store : Store cfg) (latestSlot : ℕ) (writes : List Write) : Prop :=
  ∃ sql, SqlFilters.build client program filters label = some (.ok sql) ∧ IsAccepted sql ∧
    ∀ scanned, ProgramScan sql store program latestSlot scanned →
      ((getProgramAccounts scanned).map AccountRow.pubkey).Nodup ∧
        ∀ row, row ∈ getProgramAccounts scanned ↔
          Shows writes latestSlot row ∧ row.owner = program ∧ satisfies client filters row.data = true

/-- In every run with the owner map that saves each block whole and in time, the answer to a request that is not
turned away is exact if and only if its offsets fit, its predicates mean what its filters mean on the newest versions
under the program, and they accept no stale version by itself. -/
theorem getProgramAccounts_exact_iff {Memcmp : Type} {client : MemcmpClient Memcmp} (documented : client.Documented)
    {program : Pubkey} {filters : List (RpcFilterType Memcmp)} {label : String}
    (accepted : Filters.Accepts client program filters label) {store : Store cfg} {frontier : ℕ}
    (sound : Sound true programs writes (Cleaner.start store frontier))
    (elsewhere : MasksElsewhere writes (Cleaner.start store frontier).tables) {events : List CleanerEvent}
    (run : Run (Cleaner.start store frontier) (Cleaner.step true programs chunkSize maxChunkBytesData)
      (InTimeRun true programs chunkSize maxChunkBytesData writes) events cleaner)
    (above : cleaner.frontier ≤ latestSlot) :
    IsExact client program filters label cleaner.store latestSlot
        (writes ++ events.flatMap (CleanerEvent.writes true programs)) ↔
      (∀ filter ∈ filters, offsetFits client filter = true) ∧
        (∀ row, Shows (writes ++ events.flatMap (CleanerEvent.writes true programs)) latestSlot row →
          row.owner = program → Understood client program filters row.data) ∧
        NoStaleVersions (sqlAccepts client program filters) program latestSlot
          (writes ++ events.flatMap (CleanerEvent.writes true programs)) cleaner.tables := by
  have reached := sound.run run
  have apart := elsewhere.run sound run
  have understood (row : AccountRow) := @sqlAccepts_eq_satisfies_iff _ _ program filters row.data documented
  constructor
  · rintro ⟨sql, built, runs, answers⟩
    have fits := (isAccepted_iff documented built).mp runs
    have scan : ProgramScan sql cleaner.store program latestSlot _ := List.Perm.refl _
    obtain ⟨agree, fresh⟩ := (exact_iff reached apart above fun row => scan.mem_scanned documented built fits).mp
      (answers _ scan).2
    exact ⟨fits, fun row shown owner => (understood row).mp (agree row shown owner), fresh⟩
  · rintro ⟨fits, means, fresh⟩
    have adds := (Filters.forall_withDelegateTag program (fun filter => offsetFits client filter = true)
      (Filters.offsetFits_delegateTag documented)).mpr fits
    obtain ⟨sql, built, -⟩ := Filters.build_translated documented accepted fun filter member =>
      Filters.offsetAdds_of_offsetFits (adds filter member)
    refine ⟨sql, built, (isAccepted_iff documented built).mpr fits, fun scanned scan =>
      ⟨nodup_getProgramAccounts scanned, ?_⟩⟩
    exact (exact_iff reached apart above fun row => scan.mem_scanned documented built fits).mpr
      ⟨fun row shown owner => (understood row).mpr (means row shown owner), fresh⟩

section Examples

/-- An account of program 5 with the byte 1, since slot 1. -/
private def versioned : Store ⟨true, false⟩ :=
  ⟨⟨AList.insert 1 ⟨5, 1⟩ ∅, ∅⟩, ∅, [⟨1, 5, 10, 1, [1]⟩]⟩

/-- It has the byte 2 at slot 3. A late block has the byte 3 at slot 2. -/
private def rewrites : List CleanerEvent :=
  [.save 3 none [⟨1, 5, 20, [2]⟩] [[⟨1, 5, 20, 3, [2]⟩], []],
    .save 2 none [⟨1, 5, 15, [3]⟩] [[⟨1, 5, 15, 2, [3]⟩], []]]

private def rewritten : Cleaner ⟨true, false⟩ :=
  (Run.replay (Cleaner.step true ⟨[5], []⟩ 1 1) (InTimeRun true ⟨[5], []⟩ 1 1 (Cleanup.snapshotWrites versioned)) []
    (Cleaner.start versioned 1) rewrites).getD (.start versioned 1)

private theorem reached : Run (Cleaner.start versioned 1) (Cleaner.step true ⟨[5], []⟩ 1 1)
    (InTimeRun true ⟨[5], []⟩ 1 1 (Cleanup.snapshotWrites versioned)) rewrites rewritten :=
  Run.replayed (Option.getD_of_ne_none (by decide +kernel) _).symm

private theorem accepts_firstByte (byte : UInt8) :
    Filters.Accepts Filters.pairClient 5 [.memcmp (0, ⟨[byte], by norm_num⟩)] "gpa" := fun error rejected => by
  cases rejected

private theorem newest_rewritten {row : AccountRow}
    (shown : Shows (Cleanup.snapshotWrites versioned ++ rewrites.flatMap (CleanerEvent.writes true ⟨[5], []⟩)) 3 row) :
    row = ⟨1, 5, 20, 3, [2]⟩ := by
  obtain ⟨write, isLast, shows⟩ := shown
  have all : ∀ write ∈ Cleanup.snapshotWrites versioned ++ rewrites.flatMap (CleanerEvent.writes true ⟨[5], []⟩),
      write.pubkey = 1 ∧ (3 ≤ write.slot → write.row = some ⟨1, 5, 20, 3, [2]⟩) := by decide +kernel
  have newer := isLast.last ⟨1, 3, some ⟨1, 5, 20, 3, [2]⟩⟩ (by decide +kernel) (all write isLast.mem).1.symm le_rfl
  rw [(all write isLast.mem).2 newer] at shows
  exact (Option.some.inj shows).symm

/-- The newest bytes are asked for, and the account is answered. -/
theorem rewritten_account_is_returned :
    IsExact Filters.pairClient 5 [.memcmp (0, ⟨[2], by decide⟩)] "gpa" rewritten.store 3
        (Cleanup.snapshotWrites versioned ++ rewrites.flatMap (CleanerEvent.writes true ⟨[5], []⟩)) ∧
      Shows (Cleanup.snapshotWrites versioned ++ rewrites.flatMap (CleanerEvent.writes true ⟨[5], []⟩)) 3
        ⟨1, 5, 20, 3, [2]⟩ := by
  have loaded : Cleanup.Loaded ⟨[5], []⟩ versioned :=
    Cleanup.loaded_singleton ⟨1, 5, 10, 1, [1]⟩ (by decide) (by decide)
  have shown : Shows (Cleanup.snapshotWrites versioned ++ rewrites.flatMap (CleanerEvent.writes true ⟨[5], []⟩)) 3
      ⟨1, 5, 20, 3, [2]⟩ :=
    ⟨⟨1, 3, some ⟨1, 5, 20, 3, [2]⟩⟩, ⟨by decide +kernel, le_rfl, fun _ _ _ reaches => reaches⟩, rfl⟩
  have fresh : NoStaleVersions (sqlAccepts Filters.pairClient 5 [.memcmp (0, ⟨[2], by decide⟩)]) 5 3
      (Cleanup.snapshotWrites versioned ++ rewrites.flatMap (CleanerEvent.writes true ⟨[5], []⟩)) rewritten.tables := by
    have rows : ∀ row ∈ rewritten.tables, row = ⟨1, 5, 20, 3, [2]⟩ ∨
        sqlAccepts Filters.pairClient 5 [.memcmp (0, ⟨[2], by decide⟩)] row.data = false := by decide +kernel
    intro row present _ _ _ isAccepted
    rcases rows row present with rfl | refused
    · exact Or.inl shown
    · rw [refused] at isAccepted
      cases isAccepted
  refine ⟨(getProgramAccounts_exact_iff Filters.pairClient_documented (accepts_firstByte 2) (loaded.sound true 1)
    (masksElsewhere_of_loaded loaded 1) reached (by decide +kernel)).mpr ⟨by decide, fun row newest _ => ?_, fresh⟩,
    shown⟩
  rw [newest_rewritten newest]
  exact ⟨Or.inl (by decide), by decide⟩

/-- The version of slot 1 is not the newest, but the only one that the filter accepts. -/
theorem stale_version_is_returned :
    ∃ events cleaner, Run (Cleaner.start versioned 1) (Cleaner.step true ⟨[5], []⟩ 1 1)
      (InTimeRun true ⟨[5], []⟩ 1 1 (Cleanup.snapshotWrites versioned)) events cleaner ∧ cleaner.frontier = 1 ∧
      ¬IsExact Filters.pairClient 5 [.memcmp (0, ⟨[1], by decide⟩)] "gpa" cleaner.store 3
        (Cleanup.snapshotWrites versioned ++ events.flatMap (CleanerEvent.writes true ⟨[5], []⟩)) := by
  refine ⟨rewrites, rewritten, reached, by decide +kernel, ?_⟩
  rintro ⟨sql, built, -, answers⟩
  cases built
  obtain ⟨-, exact_⟩ := answers [⟨1, 5, 10, 1, [1]⟩] (by unfold ProgramScan; decide +kernel)
  have shown := ((exact_ ⟨1, 5, 10, 1, [1]⟩).mp (by decide +kernel)).1
  exact absurd (newest_rewritten shown) (by decide)

end Examples

end Cloudbreak.Model.Gpa
