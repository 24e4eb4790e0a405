import Cloudbreak.Proofs.Supply.LiveBlock

/-! # The live part of a run

While the tracker is live, its total is the startup capitalization plus every change above the startup
slot, and every source is exact for the newest versions. Each event keeps this: a block above the startup
slot by the step of its accounts, a block at or below it because only the stake map and the rows see it,
and the rest because they move no balance.
-/

namespace Cloudbreak.Model.Supply

open Cloudbreak.ToMathlib
open NonCirculating (Shared Version stakeView versionAt stakeProgramId)
open Indexer (Event)

/-- Every write delivered at or below the startup slot is what the snapshot has of its account. -/
def SettledLedger (startup : Startup) (delivered : Ledger) : Prop :=
  ∀ key version, delivered key = some version → version.slot ≤ startup.slot →
    startup.ledger key = some version ∨ startup.ledger key = none ∧ version.lamports = 0

/-- The version an account counts with: its newest write above the startup slot, or its startup balance. -/
def countedOf (startupSlot : ℕ) (atStartup delivered : Option Version) : Option Version :=
  if delivered.any fun version => startupSlot < version.slot then delivered else atStartup

/-- The supply once every change above the startup slot is counted. -/
def countedSupply (startup : Startup) (delivered : Ledger) : ℤ :=
  ∑ key, (balance (countedOf startup.slot (startup.ledger key) (delivered key)) : ℤ)

section Counted

variable {startup : Startup} {delivered : Ledger}

private theorem balance_countedOf (settled : SettledLedger startup delivered) (key : Pubkey) :
    balance (countedOf startup.slot (startup.ledger key) (delivered key)) =
      balance (newestOf (startup.ledger key) (delivered key)) := by
  cases isDelivered : delivered key with
  | none => rw [newestOf_none_right]; rfl
  | some version =>
    by_cases above : startup.slot < version.slot
    · rw [newestOf_delivered fun first isStartup => ((startup.ledger_bounds isStartup).1.trans above.le)]
      simp [countedOf, above]
    · simp only [countedOf, Option.any_some, above, decide_false, Bool.false_eq_true, if_false]
      rcases settled key version isDelivered (not_lt.mp above) with same | ⟨absent, empty⟩
      · rw [same, newestOf_delivered fun first isFirst => by cases isFirst; exact le_rfl]
      · rw [absent]
        exact empty.symm

/-- Once the snapshot and the blocks agree, the counted supply is the sum of the newest balances. -/
theorem countedSupply_settled (settled : SettledLedger startup delivered) :
    countedSupply startup delivered = ∑ key, (balance (newestOf (startup.ledger key) (delivered key)) : ℤ) :=
  Finset.sum_congr rfl fun key _ => congrArg Nat.cast (balance_countedOf settled key)

/-- Writes at or below the startup slot do not count. -/
theorem countedOf_newer_below {startupSlot : ℕ} {atStartup known : Option Version} {version : Version}
    (below : version.slot ≤ startupSlot) :
    countedOf startupSlot atStartup (newer known version) = countedOf startupSlot atStartup known := by
  cases known with
  | none => simp [newer, countedOf, not_lt.mpr below]
  | some old =>
    unfold newer
    dsimp only
    split
    · next older =>
      have oldBelow : ¬startupSlot < old.slot := by omega
      simp [countedOf, not_lt.mpr below, oldBelow]
    · rfl

private theorem countedSupply_below {slot : ℕ} {accounts : List AccountInfo} (below : slot ≤ startup.slot)
    (distinct : (accounts.map AccountInfo.pubkey).Nodup) :
    countedSupply startup (delivered.record slot accounts) = countedSupply startup delivered := by
  refine Finset.sum_congr rfl fun key _ => congrArg (fun version => (balance version : ℤ)) ?_
  by_cases written : key ∈ accounts.map AccountInfo.pubkey
  · obtain ⟨account, member, rfl⟩ := List.mem_map.mp written
    rw [record_of_mem distinct member]
    exact countedOf_newer_below below
  · rw [record_of_not_mem written]

/-- A write above the startup slot moves the newest version the same way as the delivered one. -/
theorem newestOf_newer {atStartup known : Option Version} {version : Version}
    (above : ∀ first, atStartup = some first → first.slot < version.slot) :
    newestOf atStartup (newer known version) = newer (newestOf atStartup known) version := by
  cases known with
  | none =>
    rw [newestOf_none_right, newer_later above]
    exact newestOf_delivered fun first isFirst => (above first isFirst).le
  | some old =>
    by_cases older : old.slot < version.slot
    · have later : newer (some old) version = some version := if_pos older
      rw [later, newestOf_delivered fun first isFirst => (above first isFirst).le]
      refine (newer_later fun before isBefore => ?_).symm
      rcases newestOf_eq before isBefore with isStartup | isOld
      · exact above before isStartup
      · cases isOld
        exact older
    · have kept : newer (some old) version = some old := if_neg older
      rw [kept, newestOf_delivered fun first isFirst => ?_, kept]
      have := above first isFirst
      omega

/-- A delivered version is the newest one once the snapshot and the blocks agree. -/
theorem newestOf_caughtUp (settled : SettledLedger startup delivered) {key : Pubkey} {version : Version}
    (isDelivered : delivered key = some version) : newestOf (startup.ledger key) (delivered key) = some version := by
  rw [isDelivered]
  refine newestOf_delivered fun first isFirst => ?_
  by_cases below : version.slot ≤ startup.slot
  · rcases settled key version isDelivered below with same | ⟨absent, _⟩
    · rw [isFirst, Option.some.injEq] at same
      rw [same]
    · rw [absent] at isFirst
      contradiction
  · have := (startup.ledger_bounds isFirst).1
    omega

section NewestBlock

variable {events : List Event} {slot : ℕ} {isRepaired ok : Bool} {accounts : List AccountInfo}

private theorem newest_block_of_mem (above : startup.slot < slot) (distinct : (accounts.map AccountInfo.pubkey).Nodup)
    {account : AccountInfo} (member : account ∈ accounts) :
    newest startup (events ++ [.block slot isRepaired accounts ok]) account.pubkey =
      newestAfter (newest startup events account.pubkey) slot account := by
  unfold newest
  rw [delivered_block, record_of_mem distinct member]
  exact newestOf_newer fun first isFirst => (startup.ledger_bounds isFirst).1.trans_lt above

private theorem newest_block_of_not_mem {key : Pubkey} (absent : key ∉ accounts.map AccountInfo.pubkey) :
    newest startup (events ++ [.block slot isRepaired accounts ok]) key = newest startup events key := by
  unfold newest
  rw [delivered_block, record_of_not_mem absent]

end NewestBlock

/-- Blocks above the startup slot leave the agreement as it is. -/
theorem SettledLedger.record {slot : ℕ} {accounts : List AccountInfo} (settled : SettledLedger startup delivered)
    (above : startup.slot < slot) (distinct : (accounts.map AccountInfo.pubkey).Nodup) :
    SettledLedger startup (delivered.record slot accounts) := by
  intro key version isDelivered below
  by_cases written : key ∈ accounts.map AccountInfo.pubkey
  · obtain ⟨account, member, rfl⟩ := List.mem_map.mp written
    rw [record_of_mem distinct member] at isDelivered
    rcases newer_eq isDelivered with rfl | known
    · exact absurd below (Nat.not_le.mpr above)
    · exact settled _ version known below
  · rw [record_of_not_mem written] at isDelivered
    exact settled key version isDelivered below

end Counted

/-- What holds while the tracker is live, whether or not a gap is open. `closed` are the accounts the
bootstrap window may have marked. -/
structure Counting (shared : Shared) (startup : Startup) (closed : Set Pubkey) (events : List Event)
    (indexer : Indexer) : Prop where
  running : indexer.supply.status = .live ∨ indexer.supply.status = .gapFilling
  startupIs : indexer.supply.startupSlot = startup.slot
  mapLive : indexer.nonCirculating.status = .live
  mapSlot : indexer.nonCirculating.slot = 0 ∨ indexer.nonCirculating.slot ∈ blockSlots events
  supplySlot : indexer.supply.slot = startup.slot ∨ indexer.supply.slot ∈ blockSlots events
  ahead : startup.slot ≤ indexer.supply.slot
  sources : Sources shared (newest startup events) (delivered events) indexer
  counted : (indexer.supply.total : ℤ) = countedSupply startup (delivered events) % 2 ^ 64
  quiet : (∀ slot ∈ blockSlots events, slot ≤ startup.slot) →
    ∀ key, (supplyView indexer.supply key).cached = none ∧ (supplyView indexer.supply key).gapClose = none
  settled : (∃ slot ∈ blockSlots events, startup.slot < slot) → SettledLedger startup (delivered events)
  marks : ∀ key, (supplyView indexer.supply key).zeroPrev = true → key ∈ closed

theorem addDelta_cast (total : ℕ) (delta : ℤ) : (addDelta total delta : ℤ) = (total + delta) % 2 ^ 64 :=
  Int.toNat_of_nonneg (Int.emod_nonneg _ (by decide))

namespace Counting

variable {shared : Shared} {startup : Startup} {closed : Set Pubkey} {events : List Event} {indexer : Indexer}

/-- After a block above the startup slot the total is the true supply. -/
theorem total_eq (counting : Counting shared startup closed events indexer) (settled : SettledLedger startup (delivered events)) :
    indexer.supply.total = trueSupply startup events % 2 ^ 64 := by
  have counted := counting.counted
  rw [countedSupply_settled settled] at counted
  have cast : ((trueSupply startup events : ℕ) : ℤ) =
      ∑ key, (balance (newestOf (startup.ledger key) (delivered events key)) : ℤ) :=
    Nat.cast_sum _ _
  rw [← cast] at counted
  exact_mod_cast counted

section Block

variable {slot : ℕ} {isRepaired ok : Bool} {accounts : List AccountInfo}

/-- The newest version of an account lies below a live block and beside a repaired one. -/
theorem newest_slot {key : Pubkey} {last : Version}
    (isNewest : newest startup events key = some last) :
    last.slot ≤ startup.slot ∨ last.slot ∈ blockSlots events := by
  rcases newestOf_eq last isNewest with isStartup | isDelivered
  · exact Or.inl (startup.ledger_bounds isStartup).1
  · exact Or.inr (slot_mem_of_delivered events isDelivered)

theorem row_below (counting : Counting shared startup closed events indexer) (above : startup.slot < slot)
    (ordered : ∀ earlier ∈ blockSlots events, earlier < slot) {key : Pubkey} {latest : PrevRow}
    (isLatest : indexer.row key = some latest) : latest.slot < slot := by
  obtain ⟨version, isNewest, bound⟩ := (counting.sources key).rowBound latest isLatest
  rcases newest_slot isNewest with below | inBlock
  · omega
  · have := ordered version.slot inBlock
    omega

theorem row_saveBlock_of_mem (distinct : (accounts.map AccountInfo.pubkey).Nodup) {account : AccountInfo}
    (member : account ∈ accounts) :
    (indexer.saveBlock shared slot isRepaired accounts ok).row account.pubkey =
      if ok then rowAfter indexer.snapshotFinished (versionAt slot account) (indexer.row account.pubkey)
      else indexer.row account.pubkey := by
  cases ok with
  | true => exact indexer.row_saved_of_mem distinct member
  | false => rfl

theorem row_saveBlock_of_not_mem {key : Pubkey} (absent : key ∉ accounts.map AccountInfo.pubkey) :
    (indexer.saveBlock shared slot isRepaired accounts ok).row key = indexer.row key := by
  cases ok with
  | true => exact indexer.row_saved_of_not_mem absent
  | false => rfl

private theorem mapSlot_fresh (counting : Counting shared startup closed events indexer) (above : startup.slot < slot)
    (ordered : isRepaired = false → ∀ earlier ∈ blockSlots events, earlier < slot) :
    isRepaired = true ∨ indexer.nonCirculating.slot < slot := by
  cases isRepaired with
  | true => exact Or.inl rfl
  | false =>
    refine Or.inr ?_
    rcases counting.mapSlot with zero | inBlock
    · have := startup.started
      omega
    · exact ordered rfl _ inBlock

private theorem supplySlot_fresh (counting : Counting shared startup closed events indexer)
    (above : startup.slot < slot) (ordered : isRepaired = false → ∀ earlier ∈ blockSlots events, earlier < slot) :
    isRepaired = true ∨ indexer.supply.slot < slot := by
  cases isRepaired with
  | true => exact Or.inl rfl
  | false =>
    refine Or.inr ?_
    rcases counting.supplySlot with same | inBlock
    · omega
    · exact ordered rfl _ inBlock

private theorem reads_row (counting : Counting shared startup closed events indexer) (above : startup.slot < slot)
    (ordered : isRepaired = false → ∀ earlier ∈ blockSlots events, earlier < slot) (key : Pubkey) :
    indexer.fetchPrevBalances (if isRepaired then none else some slot) key = indexer.row key := by
  cases isRepaired with
  | true => exact indexer.fetchPrevBalances_all _
  | false => exact indexer.fetchPrevBalances_below fun latest isLatest => counting.row_below above (ordered rfl) isLatest

/-- A block above the startup slot keeps the sources of each of its accounts, and gains the change of its balance. -/
private theorem account_stepped (counting : Counting shared startup closed events indexer)
    (above : startup.slot < slot) (unseen : slot ∉ blockSlots events)
    (ordered : isRepaired = false → ∀ earlier ∈ blockSlots events, earlier < slot)
    (settled : SettledLedger startup (delivered events)) {inGap : Bool} (liveGap : isRepaired = true → inGap = false)
    {account : AccountInfo}
    (allowed : AccountOk (newest startup events account.pubkey) (indexer.nonCirculating.held account.pubkey)
      (supplyView indexer.supply account.pubkey) (indexer.row account.pubkey) indexer.snapshotFinished slot isRepaired
      ok account) :
    Exact (decide (account.pubkey ∈ shared.pinned)) (newestAfter (newest startup events account.pubkey) slot account)
        (newer (delivered events account.pubkey) (versionAt slot account))
        (heldAfter (decide (account.pubkey ∈ shared.pinned)) (versionAt slot account)
          (indexer.nonCirculating.held account.pubkey))
        (viewAfter slot isRepaired inGap ok (indexer.nonCirculating.held account.pubkey) (indexer.row account.pubkey)
          account (supplyView indexer.supply account.pubkey))
        (if ok then rowAfter indexer.snapshotFinished (versionAt slot account) (indexer.row account.pubkey)
          else indexer.row account.pubkey) ∧
      gainOf slot isRepaired inGap (indexer.nonCirculating.held account.pubkey) (indexer.row account.pubkey) account
          (supplyView indexer.supply account.pubkey) =
        (balance (newestAfter (newest startup events account.pubkey) slot account) : ℤ) -
          balance (newest startup events account.pubkey) := by
  refine (counting.sources account.pubkey).block_step (fun version isDelivered => newestOf_caughtUp settled isDelivered)
    liveGap (fun last isNewest same => ?_) (fun live last isNewest => ?_) allowed (fun last isNewest older => ?_)
  · rcases newest_slot isNewest with below | inBlock
    · omega
    · exact unseen (same ▸ inBlock)
  · rcases newest_slot isNewest with below | inBlock
    · omega
    · exact ordered live _ inBlock
  · rcases newestOf_eq last isNewest with isStartup | isDelivered
    · have := (startup.ledger_bounds isStartup).1
      omega
    · exact isDelivered

/-- The change of the supply is the sum of what the accounts of the block gain. -/
private theorem countedSupply_block (above : startup.slot < slot) (distinct : (accounts.map AccountInfo.pubkey).Nodup)
    (settled : SettledLedger startup (delivered events)) {gain : AccountInfo → ℤ}
    (gains : ∀ account ∈ accounts, gain account =
      (balance (newestAfter (newest startup events account.pubkey) slot account) : ℤ) -
        balance (newest startup events account.pubkey)) :
    countedSupply startup ((delivered events).record slot accounts) =
      countedSupply startup (delivered events) + (accounts.map gain).sum := by
  rw [countedSupply_settled settled, countedSupply_settled (settled.record above distinct)]
  have changed := @sum_eq_add_of_changed _ _ _
    (fun key => (balance (newestOf (startup.ledger key) (delivered events key)) : ℤ))
    (fun key => (balance (newestOf (startup.ledger key) ((delivered events).record slot accounts key)) : ℤ))
    (accounts.map AccountInfo.pubkey) distinct fun key absent => by rw [record_of_not_mem absent]
  refine changed.trans ?_
  rw [List.map_map]
  refine congrArg (_ + List.sum ·) (List.map_congr_left fun account member => ?_)
  rw [gains account member,
    ← @newest_block_of_mem startup events slot false true accounts above distinct account member]
  simp only [Function.comp, newest, delivered_block]

/-- A block above the startup slot moves the total by the change of the supply, unless the pins overflow. -/
theorem block (counting : Counting shared startup closed events indexer) (above : startup.slot < slot)
    (distinct : (accounts.map AccountInfo.pubkey).Nodup) (unseen : slot ∉ blockSlots events)
    (ordered : isRepaired = false → ∀ earlier ∈ blockSlots events, earlier < slot)
    (settled : SettledLedger startup (delivered events))
    (allowed : ∀ account ∈ accounts, AccountOk (newest startup events account.pubkey)
      (indexer.nonCirculating.held account.pubkey) (supplyView indexer.supply account.pubkey)
      (indexer.row account.pubkey) indexer.snapshotFinished slot isRepaired ok account) :
    ok = false ∧ (indexer.saveBlock shared slot isRepaired accounts ok).supply.status = .stale ∨
      Counting shared startup closed (events ++ [.block slot isRepaired accounts ok])
        (indexer.saveBlock shared slot isRepaired accounts ok) := by
  have freshMap := counting.mapSlot_fresh above ordered
  rcases finishBlock_spec indexer ok counting.running counting.mapLive freshMap
    (counting.supplySlot_fresh above ordered) (counting.startupIs ▸ above) distinct
    (fun account _ => counting.reads_row above ordered account.pubkey) with stale | finished
  · exact Or.inl stale
  refine Or.inr ?_
  have inGapLive : isRepaired = true → (!isRepaired && decide (indexer.supply.status = .gapFilling)) = false := by
    rintro rfl
    rfl
  have stepped := fun account member =>
    counting.account_stepped above unseen ordered settled inGapLive (allowed account member)
  have newestWritten := fun account member =>
    @newest_block_of_mem startup events slot isRepaired ok accounts above distinct account member
  have newestKept := fun key absent =>
    @newest_block_of_not_mem startup events slot isRepaired ok accounts key absent
  constructor
  case running => exact finished.statusIs ▸ counting.running
  case startupIs => exact finished.startupIs.trans counting.startupIs
  case mapLive => exact (indexer.nonCirculating.applyBlock_status shared slot freshMap).trans counting.mapLive
  case mapSlot =>
    rw [blockSlots_block, List.mem_append, List.mem_singleton]
    have slotIs : (indexer.saveBlock shared slot isRepaired accounts ok).nonCirculating.slot =
        max indexer.nonCirculating.slot slot := indexer.nonCirculating.applyBlock_slot shared slot freshMap
    rcases max_choice indexer.nonCirculating.slot slot with left | right
    · rw [slotIs, left]
      exact counting.mapSlot.imp id Or.inl
    · exact Or.inr (Or.inr (slotIs.trans right))
  case supplySlot =>
    rw [blockSlots_block, List.mem_append, List.mem_singleton, finished.slotIs]
    rcases max_choice indexer.supply.slot slot with left | right
    · rw [left]
      exact counting.supplySlot.imp id Or.inl
    · exact Or.inr (Or.inr right)
  case ahead =>
    rw [finished.slotIs]
    exact counting.ahead.trans (le_max_left _ _)
  case sources =>
    intro key
    by_cases written : key ∈ accounts.map AccountInfo.pubkey
    · obtain ⟨account, member, rfl⟩ := List.mem_map.mp written
      rw [newestWritten account member, delivered_block, record_of_mem distinct member, finished.written account member,
        row_saveBlock_of_mem distinct member]
      have held : (indexer.saveBlock shared slot isRepaired accounts ok).nonCirculating.held account.pubkey =
          heldAfter (decide (account.pubkey ∈ shared.pinned)) (versionAt slot account)
            (indexer.nonCirculating.held account.pubkey) := held_applyBlock_of_mem freshMap distinct member
      rw [held]
      exact (stepped account member).1
    · have held : (indexer.saveBlock shared slot isRepaired accounts ok).nonCirculating.held key =
          indexer.nonCirculating.held key := held_applyBlock_of_not_mem freshMap written
      rw [newestKept key written, delivered_block, record_of_not_mem written, held, finished.unwritten key written,
        row_saveBlock_of_not_mem written]
      exact counting.sources key
  case counted =>
    rw [delivered_block, finished.totalIs, addDelta_cast, counting.counted,
      countedSupply_block above distinct settled fun account member => (stepped account member).2,
      Int.emod_add_emod]
  case quiet =>
    intro all
    have := all slot (by simp)
    omega
  case settled =>
    intro _
    rw [delivered_block]
    exact settled.record above distinct
  case marks =>
    intro key marked
    by_cases written : key ∈ accounts.map AccountInfo.pubkey
    · obtain ⟨account, member, rfl⟩ := List.mem_map.mp written
      rw [finished.written account member] at marked
      exact counting.marks _ (viewAfter_zeroPrev marked)
    · rw [finished.unwritten key written] at marked
      exact counting.marks key marked

/-- What a live block at or below the startup slot is allowed to do to one account. -/
structure IdleOk (atStartup : Option Version) (view : SupplyView) (row : Option PrevRow) (snapshotFinished : Bool)
    (slot : ℕ) (account : AccountInfo) : Prop where
  consistent : ∀ first, atStartup = some first →
    slot ≤ first.slot ∧ (slot = first.slot → first = versionAt slot account)
  stillEmpty : view.zeroPrev = true → account.lamports = 0
  plainClose : account.lamports = 0 → account.owner ≠ stakeProgramId
  closeStored : account.lamports = 0 → view.zeroPrev = false → atStartup = none →
    snapshotFinished = true ∨ row = none

/-- A live block at or below the startup slot leaves the tracker alone. -/
theorem saveBlock_idle (counting : Counting shared startup closed events indexer) (below : slot ≤ startup.slot) :
    (indexer.saveBlock shared slot false accounts ok).supply = indexer.supply := by
  have replayed : (!false && decide (slot ≤ indexer.supply.slot)) = true := by
    simpa using below.trans counting.ahead
  have idle : indexer.supply.probeBlock slot false (SupplyState.buildBlockPending accounts)
      (indexer.nonCirculating.applyBlock shared slot false accounts).2 = (indexer.supply, .idle, []) := by
    rcases counting.running with live | gap
    · simp only [SupplyState.probeBlock, live, replayed, if_true]
    · simp only [SupplyState.probeBlock, gap, replayed, if_true]
  simp only [Indexer.saveBlock, SupplyState.applyBlock, idle, SupplyState.finishBlock]

theorem block_idle (counting : Counting shared startup closed events indexer) (below : slot ≤ startup.slot)
    (positive : 0 < slot) (distinct : (accounts.map AccountInfo.pubkey).Nodup)
    (ordered : ∀ earlier ∈ blockSlots events, earlier < slot)
    (allowed : ∀ account ∈ accounts, IdleOk (startup.ledger account.pubkey)
      (supplyView indexer.supply account.pubkey) (indexer.row account.pubkey) indexer.snapshotFinished slot account) :
    Counting shared startup closed (events ++ [.block slot false accounts true])
      (indexer.saveBlock shared slot false accounts true) := by
  have freshMap : false = true ∨ indexer.nonCirculating.slot < slot := by
    refine Or.inr ?_
    rcases counting.mapSlot with zero | inBlock
    · omega
    · exact ordered _ inBlock
  have allBelow : ∀ earlier ∈ blockSlots events, earlier ≤ startup.slot :=
    fun earlier inBlock => (ordered earlier inBlock).le.trans below
  have supplyIs : (indexer.saveBlock shared slot false accounts true).supply = indexer.supply :=
    counting.saveBlock_idle below
  constructor
  case running => exact supplyIs ▸ counting.running
  case startupIs => exact supplyIs ▸ counting.startupIs
  case mapLive => exact (indexer.nonCirculating.applyBlock_status shared slot freshMap).trans counting.mapLive
  case mapSlot =>
    have slotIs : (indexer.saveBlock shared slot false accounts true).nonCirculating.slot =
        max indexer.nonCirculating.slot slot := indexer.nonCirculating.applyBlock_slot shared slot freshMap
    have later : indexer.nonCirculating.slot ≤ slot := (freshMap.resolve_left (by decide)).le
    exact Or.inr (by simp [slotIs, max_eq_right later])
  case supplySlot =>
    rw [supplyIs, blockSlots_block]
    exact counting.supplySlot.imp id (List.mem_append_left _)
  case ahead => exact supplyIs ▸ counting.ahead
  case sources =>
    intro key
    rw [supplyIs]
    by_cases written : key ∈ accounts.map AccountInfo.pubkey
    · obtain ⟨account, member, rfl⟩ := List.mem_map.mp written
      have held : (indexer.saveBlock shared slot false accounts true).nonCirculating.held account.pubkey =
          heldAfter (decide (account.pubkey ∈ shared.pinned)) (versionAt slot account)
            (indexer.nonCirculating.held account.pubkey) := held_applyBlock_of_mem freshMap distinct member
      have later : ∀ version, delivered events account.pubkey = some version → version.slot < slot :=
        fun version isDelivered => ordered _ (slot_mem_of_delivered events isDelivered)
      have ok := allowed account member
      have becomes := @newestOf_write _ _ (versionAt slot account) later
        (fun first isFirst same => (ok.consistent first isFirst).2 same.symm)
        fun first isFirst => (startup.ledger_bounds isFirst).2
      have quiet := counting.quiet allBelow account.pubkey
      have newestIs : newest startup (events ++ [.block slot false accounts true]) account.pubkey =
          newestOf (startup.ledger account.pubkey)
            (newer (delivered events account.pubkey) (versionAt slot account)) := by
        rw [newest, delivered_block, record_of_mem distinct member]
      rw [held, newestIs, delivered_block, record_of_mem distinct member, newer_later later,
        row_saveBlock_of_mem distinct member]
      have idle := @Exact.write_idle _ _ _ _ _ _ _ (pendingOf account) (counting.sources account.pubkey) later _ becomes quiet.1 quiet.2 ok.stillEmpty ok.plainClose
        indexer.snapshotFinished
      refine idle fun empty unmarked isWritten => ok.closeStored empty unmarked ?_
      -- a close is never a startup balance, so it became the newest version of an account without one
      rcases becomes with ⟨_, older⟩ | ⟨same, version, isNewest, nonempty, _⟩
      · cases isStartup : startup.ledger account.pubkey with
        | none => rfl
        | some first =>
          have bound := (ok.consistent first isStartup).1
          have isNewest : newest startup events account.pubkey = some first := by
            rw [newest, isStartup]
            exact newestOf_startup fun version isDelivered => (later version isDelivered).trans_le bound
          exact absurd (older first isNewest) (Nat.not_lt.mpr bound)
      · rw [same, isNewest, Option.some.injEq] at isWritten
        exact absurd (isWritten ▸ empty) nonempty
    · have held : (indexer.saveBlock shared slot false accounts true).nonCirculating.held key =
          indexer.nonCirculating.held key := held_applyBlock_of_not_mem freshMap written
      rw [newest_block_of_not_mem written, delivered_block, record_of_not_mem written, held,
        row_saveBlock_of_not_mem written]
      exact counting.sources key
  case counted =>
    rw [delivered_block, countedSupply_below below distinct, supplyIs]
    exact counting.counted
  case quiet =>
    intro _
    rw [supplyIs]
    exact counting.quiet allBelow
  case settled =>
    rintro ⟨other, inBlock, above⟩
    rw [blockSlots_block, List.mem_append, List.mem_singleton] at inBlock
    rcases inBlock with earlier | rfl
    · exact absurd (allBelow other earlier) (Nat.not_le.mpr above)
    · exact absurd below (Nat.not_le.mpr above)
  case marks => exact supplyIs ▸ counting.marks

end Block

section Rest

variable {next : Indexer} {event : Event}

/-- An event that delivers nothing and moves no balance. -/
theorem transfer (counting : Counting shared startup closed events indexer)
    (other : ∀ slot isRepaired accounts ok, event ≠ .block slot isRepaired accounts ok)
    (sameMap : next.nonCirculating = indexer.nonCirculating)
    (running : next.supply.status = .live ∨ next.supply.status = .gapFilling)
    (sameStartup : next.supply.startupSlot = indexer.supply.startupSlot)
    (sameSlot : next.supply.slot = indexer.supply.slot) (sameTotal : next.supply.total = indexer.supply.total)
    (sources : Sources shared (newest startup events) (delivered events) next)
    (cleared : ∀ key,
      ((supplyView indexer.supply key).cached = none → (supplyView next.supply key).cached = none) ∧
      ((supplyView indexer.supply key).gapClose = none → (supplyView next.supply key).gapClose = none) ∧
      ((supplyView next.supply key).zeroPrev = true → (supplyView indexer.supply key).zeroPrev = true)) :
    Counting shared startup closed (events ++ [event]) next := by
  obtain ⟨sameDelivered, sameSlots⟩ := delivered_other events other
  have sameNewest : newest startup (events ++ [event]) = newest startup events := by
    unfold newest
    rw [sameDelivered]
  constructor
  case running => exact running
  case startupIs => exact sameStartup.trans counting.startupIs
  case mapLive => exact sameMap ▸ counting.mapLive
  case mapSlot => exact sameMap ▸ sameSlots ▸ counting.mapSlot
  case supplySlot => exact sameSlot ▸ sameSlots ▸ counting.supplySlot
  case ahead => exact sameSlot ▸ counting.ahead
  case sources => exact sameNewest ▸ sameDelivered ▸ sources
  case counted => rw [sameDelivered, sameTotal, counting.counted]
  case quiet =>
    rw [sameSlots]
    intro allBelow key
    have before := counting.quiet allBelow key
    exact ⟨(cleared key).1 before.1, (cleared key).2.1 before.2⟩
  case settled => exact sameDelivered ▸ sameSlots ▸ counting.settled
  case marks => exact fun key marked => counting.marks key ((cleared key).2.2 marked)

theorem markGap (counting : Counting shared startup closed events indexer) :
    Counting shared startup closed (events ++ [.markGap]) { indexer with supply := indexer.supply.markGap.1 } := by
  have same : indexer.supply.markGap.1 = indexer.supply ∨
      indexer.supply.markGap.1 = { indexer.supply with status := .gapFilling } := by
    unfold SupplyState.markGap
    split
    · exact Or.inl rfl
    · exact Or.inr rfl
  rcases same with same | same
  · rw [same]
    exact counting.transfer nofun rfl counting.running rfl rfl rfl counting.sources fun _ => ⟨id, id, id⟩
  · rw [same]
    exact counting.transfer nofun rfl (Or.inr rfl) rfl rfl rfl counting.sources fun _ => ⟨id, id, id⟩

theorem finishGap (counting : Counting shared startup closed events indexer) :
    Counting shared startup closed (events ++ [.finishGap]) { indexer with supply := indexer.supply.finishGap } := by
  have same : indexer.supply.finishGap = indexer.supply ∨
      indexer.supply.finishGap = { indexer.supply with status := .live, gapCloses := ∅ } := by
    unfold SupplyState.finishGap
    split
    · exact Or.inr rfl
    · exact Or.inl rfl
  rcases same with same | same
  · rw [same]
    exact counting.transfer nofun rfl counting.running rfl rfl rfl counting.sources fun _ => ⟨id, id, id⟩
  · rw [same]
    have emptied : ∀ key, supplyView { indexer.supply with status := .live, gapCloses := ∅ } key =
        { supplyView indexer.supply key with gapClose := none } :=
      fun key => congrArg (SupplyView.mk _ _) (HashMap.lookup_empty key)
    refine counting.transfer nofun rfl (Or.inl rfl) rfl rfl rfl (fun key => ?_) fun key => ?_
    · have before := counting.sources key
      rw [emptied]
      exact { before with gapClose := fun closed gap => by contradiction }
    · rw [emptied]
      exact ⟨id, fun _ => rfl, id⟩

theorem finishSnapshot (counting : Counting shared startup closed events indexer) :
    Counting shared startup closed (events ++ [.finishSnapshot]) { indexer with snapshotFinished := true } :=
  counting.transfer nofun rfl counting.running rfl rfl rfl counting.sources fun _ => ⟨id, id, id⟩

end Rest

end Counting

/-- A sweep that evicts no tombstone of a close that was not stored while older rows of the account are
still there. -/
def Indexer.SweepShows (indexer : Indexer) (slot : ℕ) : Prop :=
  ∀ swept ∈ indexer.supply.sweepIfDue slot, ∀ item ∈ indexer.supply.cache.map.entries,
    swept.cache.map.lookup item.1 = none → item.2.lamports = 0 →
      ∀ latest ∈ indexer.row item.1, latest = ⟨0, item.2.slot⟩

/-- An unpinned entry may leave the cache when the rows show its balance. -/
theorem Exact.evict {pinned : Bool} {newest delivered held : Option Version} {view : SupplyView}
    {row : Option PrevRow} (exact_ : Exact pinned newest delivered held view row) {entry : Entry}
    (cached : view.cached = some entry) (unpinned : entry.pinned = false)
    (shows : entry.lamports = 0 → ∀ latest, row = some latest → latest = ⟨0, entry.slot⟩) :
    Exact pinned newest delivered held { view with cached := none } row := by
  refine { exact_ with cached := fun _ absent => by contradiction, rowExact := fun plain zero _ => Or.inl ?_ }
  have before := exact_.rowExact plain zero fun other inCache => by
    rw [cached, Option.some.injEq] at inCache
    exact inCache ▸ unpinned
  rcases before with exactRow | ⟨other, inCache, isClose⟩
  · exact exactRow
  · rw [cached, Option.some.injEq] at inCache
    subst inCache
    have empty : entry.lamports = 0 := by
      rcases exact_.cached entry cached with isNewest | phantom
      · rw [isNewest, Option.some.injEq] at isClose
        exact congrArg Version.lamports isClose
      · exact phantom.empty
    cases latest : row with
    | none => rw [isClose]; rfl
    | some prev =>
      rw [shows empty prev latest]
      exact ⟨_, isClose, rfl, rfl⟩

theorem Counting.sweep {shared : Shared} {startup : Startup} {closed : Set Pubkey} {events : List Event} {indexer : Indexer}
    (counting : Counting shared startup closed events indexer) {slot : ℕ} (shows : indexer.SweepShows slot)
    {supply : SupplyState} (ran : indexer.supply.sweepIfDue slot = some supply) :
    Counting shared startup closed (events ++ [.sweep slot]) { indexer with supply } := by
  have shows := shows supply ran
  unfold SupplyState.sweepIfDue at ran
  split at ran
  · obtain ⟨⟨cache, evicted⟩, swept, same⟩ := Option.bind_eq_some_iff.mp ran
    cases same
    have views : ∀ key, supplyView { indexer.supply with cache } key = supplyView indexer.supply key ∨
        supplyView { indexer.supply with cache } key = { supplyView indexer.supply key with cached := none } ∧
          ∃ entry, indexer.supply.cache.map.lookup key = some entry ∧ entry.pinned = false ∧
            cache.map.lookup key = none := by
      intro key
      rcases HotAccounts.lookup_sweep swept key with same | ⟨gone, entry, present, unpinned⟩
      · exact Or.inl (congrArg (SupplyView.mk · _ _) same)
      · exact Or.inr ⟨congrArg (SupplyView.mk · _ _) gone, entry, present, unpinned, gone⟩
    refine counting.transfer nofun rfl counting.running rfl rfl rfl (fun key => ?_) fun key => ?_
    · rcases views key with same | ⟨same, entry, present, unpinned, gone⟩
      · rw [same]
        exact counting.sources key
      · rw [same]
        exact (counting.sources key).evict present unpinned (shows ⟨key, entry⟩ (HashMap.lookup_eq_some_iff.mp present) gone)
    · rcases views key with same | ⟨same, _⟩
      · rw [same]
        exact ⟨id, id, id⟩
      · rw [same]
        exact ⟨fun _ => rfl, id, id⟩
  · cases ran
    exact counting.transfer nofun rfl counting.running rfl rfl rfl counting.sources fun _ => ⟨id, id, id⟩

end Cloudbreak.Model.Supply
