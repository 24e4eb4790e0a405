import Cloudbreak.Proofs.Supply.CacheUse
import Cloudbreak.Proofs.Supply.GapRepair

/-! # Blocks whose writes fail

Live blocks arrive in slot order and any of them may store nothing. As long as the pins are accepted, no
failed block takes an account away from the stake map, and no close is forgotten while the rows still show
its account alive, the balance that the next write of an account is counted against is that of its latest
write, and the total stays the sum of the newest balances. A sweep returns as long as the pins that are
counted do not exceed the entries: a missed account of a failed block is counted twice.
-/

namespace Cloudbreak.Model.Supply

open Cloudbreak.ToMathlib
open NonCirculating (Shared Version stakeProgramId)
open Indexer (Event)

/-- When a live block may come, whether or not its rows are stored. -/
def FailingBlock (startup : Startup) (events : List Event) (indexer : Indexer) (slot : ℕ) (isRepaired : Bool)
    (accounts : List AccountInfo) : Prop :=
  isRepaired = false ∧ indexer.supply.status ≠ .bootstrapping ∧ (accounts.map AccountInfo.pubkey).Nodup ∧
    startup.slot < slot ∧ ∀ earlier ∈ blockSlots events, earlier < slot

/-- The schedule of live blocks over a live indexer. -/
def FailingSchedule (startup : Startup) (events : List Event) (indexer : Indexer) : Event → Prop :=
  indexer.Scheduled startup events fun slot isRepaired accounts _ =>
    FailingBlock startup events indexer slot isRepaired accounts

/-- What a block must not do to an account the stake map owns. -/
structure FailingSafe (indexer : Indexer) (account : AccountInfo) (ok : Bool) : Prop where
  /-- A block whose writes fail leaves the account to the stake program. -/
  stays : ok = false → (indexer.nonCirculating.held account.pubkey).any Version.stakeOwned = true →
    account.owner = stakeProgramId
  /-- A close is stored, or there is no row it would have to hide. -/
  closeStored : ok = true → (indexer.nonCirculating.held account.pubkey).any Version.stakeOwned = true →
    account.lamports = 0 → indexer.snapshotFinished = true ∨ indexer.row account.pubkey = none

/-- A sweep meets no more counted pins than entries. -/
def Indexer.PinsFit (indexer : Indexer) : Event → Prop
  | .sweep _ => indexer.supply.cache.SweepFits
  | _ => True

/-- The condition on each event. -/
def FailingCondition (indexer : Indexer) (event : Event) : Prop :=
  indexer.Condition (fun _ _ accounts ok => ∀ account ∈ accounts, FailingSafe indexer account ok) event ∧
    indexer.PinsFit event

section Decide

variable (startup : Startup) (events : List Event) (indexer : Indexer)

instance (slot : ℕ) (isRepaired : Bool) (accounts : List AccountInfo) :
    Decidable (FailingBlock startup events indexer slot isRepaired accounts) :=
  inferInstanceAs (Decidable (_ ∧ _ ∧ _ ∧ _ ∧ ∀ earlier ∈ blockSlots events, _))

instance (event : Event) : Decidable (FailingSchedule startup events indexer event) :=
  inferInstanceAs (Decidable (indexer.Scheduled startup events _ event))

instance (account : AccountInfo) (ok : Bool) : Decidable (FailingSafe indexer account ok) :=
  decidable_of_iff
    ((ok = false → (indexer.nonCirculating.held account.pubkey).any Version.stakeOwned = true →
        account.owner = stakeProgramId) ∧
      (ok = true → (indexer.nonCirculating.held account.pubkey).any Version.stakeOwned = true →
        account.lamports = 0 → indexer.snapshotFinished = true ∨ indexer.row account.pubkey = none))
    ⟨fun both => ⟨both.1, both.2⟩, fun safe => ⟨safe.stays, safe.closeStored⟩⟩

instance (event : Event) : Decidable (indexer.PinsFit event) :=
  match event with
  | .sweep _ => inferInstanceAs (Decidable indexer.supply.cache.SweepFits)
  | .seed .. | .block .. | .finishNonCirculating | .finishSupply | .finishSnapshot | .markGap | .finishGap =>
    inferInstanceAs (Decidable True)

instance (event : Event) : Decidable (FailingCondition indexer event) :=
  inferInstanceAs (Decidable (indexer.Condition _ event ∧ indexer.PinsFit event))

end Decide

section Step

variable {shared : Shared} {startup : Startup} {events : List Event} {indexer : Indexer}

theorem Anchored.failing (anchored : Anchored shared startup events indexer) {slot : ℕ} {isRepaired ok : Bool}
    {accounts : List AccountInfo} (guard : FailingBlock startup events indexer slot isRepaired accounts)
    (safe : ∀ account ∈ accounts, FailingSafe indexer account ok) :
    (indexer.saveBlock shared slot isRepaired accounts ok).supply.status = .stale ∨
      Anchored shared startup (events ++ [.block slot isRepaired accounts ok])
        (indexer.saveBlock shared slot isRepaired accounts ok) := by
  obtain ⟨rfl, started, distinct, above, ordered⟩ := guard
  have unseen : slot ∉ blockSlots events := fun inBlock => lt_irrefl _ (ordered slot inBlock)
  have later : ∀ key last, newest startup events key = some last → ¬slot < last.slot := by
    intro key last isNewest older
    rcases Counting.newest_slot isNewest with atStartup | inBlock
    · omega
    · exact absurd (ordered _ inBlock) (Nat.lt_asymm older)
  have stepped := anchored.block started distinct above unseen
    (fun (_ : false = false) => ordered) fun account member unmarked =>
    { stored := nofun
      consumed := fun _ _ _ => unmarked
      known := fun last isNewest older => absurd older (later _ last isNewest)
      visible := fun last isNewest older => absurd older (later _ last isNewest)
      closeStored := fun owned wrote => (safe account member).closeStored wrote owned
      failedStays := (safe account member).stays }
  exact stepped.imp And.right id

/-- The cached balance, or else that of the latest row, is the newest version's where no stake account is
involved. -/
theorem Counting.tracked_eq (counting : Counting shared startup ∅ events indexer) {slot : ℕ} {key : Pubkey}
    (read : indexer.fetchPrevBalances (some slot) key = indexer.row key)
    (plain : ∀ version, newest startup events key = some version → version.stakeOwned = false) :
    (match indexer.supply.cache.map.lookup key with
      | some entry => entry.lamports
      | none => ((indexer.fetchPrevBalances (some slot) key).map PrevRow.lamports).getD 0) =
      balance (newest startup events key) := by
  have exact_ := counting.sources key
  have unmarked : (supplyView indexer.supply key).zeroPrev = false := by
    cases marked : (supplyView indexer.supply key).zeroPrev with
    | false => rfl
    | true => exact absurd (counting.marks key marked) (Set.notMem_empty _)
  cases cached : indexer.supply.cache.map.lookup key with
  | some entry =>
    rcases exact_.cached entry cached with isNewest | phantom
    · rw [isNewest]
      rfl
    · obtain ⟨version, isNewest, empty, _⟩ := phantom.closed
      rw [isNewest]
      exact phantom.empty.trans empty.symm
  | none =>
    have uncached : (supplyView indexer.supply key).cached = none := cached
    have exactRow : RowExact (newest startup events key) (indexer.row key) := by
      refine (exact_.rowExact plain unmarked fun entry inCache => ?_).resolve_right ?_
      · rw [uncached] at inCache
        contradiction
      · rintro ⟨entry, inCache, _⟩
        rw [uncached] at inCache
        contradiction
    dsimp only
    rw [read]
    cases isRow : indexer.row key with
    | none =>
      rw [isRow] at exactRow
      exact exactRow.symm
    | some latest =>
      rw [isRow] at exactRow
      obtain ⟨version, isNewest, _, same⟩ := exactRow
      rw [isNewest]
      exact same.symm

/-- The balance the next write is counted against is that of the newest version. -/
theorem Counting.prevBalance_eq (counting : Counting shared startup ∅ events indexer)
    (settled : SettledLedger startup (delivered events)) {slot : ℕ} (above : startup.slot < slot)
    (ordered : ∀ earlier ∈ blockSlots events, earlier < slot) (key : Pubkey) :
    indexer.prevBalance slot key = balance (newest startup events key) := by
  have exact_ := counting.sources key
  have caughtUp : ∀ version, delivered events key = some version → newest startup events key = some version :=
    fun version isDelivered => newestOf_caughtUp settled isDelivered
  have read : indexer.fetchPrevBalances (some slot) key = indexer.row key :=
    indexer.fetchPrevBalances_below fun latest isLatest => counting.row_below above ordered isLatest
  have tracked := counting.tracked_eq read
  unfold Indexer.prevBalance
  cases present : indexer.nonCirculating.accounts.lookup key with
  | none =>
    have absent : indexer.nonCirculating.held key = none := by rw [NonCirculating.State.held, present, Option.map_none]
    exact tracked fun version isNewest => (exact_.absent absent version (Or.inl isNewest)).1
  | some entry =>
    have held : indexer.nonCirculating.held key = some entry.version := by
      rw [NonCirculating.State.held, present, Option.map_some]
    have isNewest := (exact_.known entry.version held).elim id (caughtUp entry.version)
    dsimp only
    split
    · rw [isNewest]
      rfl
    · next unowned =>
      refine tracked fun version isVersion => ?_
      rw [isNewest, Option.some.injEq] at isVersion
      rw [← isVersion]
      exact Bool.not_eq_true _ ▸ unowned

end Step

/-- In every run that keeps the condition and did not go stale, the balance that the next write of an account
is counted against is that of its latest write, the total is the sum of the newest balances, and a sweep that the
condition allows does not panic. -/
theorem failed_writes_keep_balances {shared : Shared} {startup : Startup} {cap failPinCap : ℕ} {events : List Event}
    {indexer : Indexer} (small : failPinCap < 2 ^ 64)
    (run : Run (.start shared cap failPinCap startup.slot startup.capitalization) (Indexer.step shared)
      (fun events indexer event =>
        FailingSchedule startup events indexer event ∧ FailingCondition indexer event) events indexer)
    (running : indexer.supply.status = .live ∨ indexer.supply.status = .gapFilling) :
    indexer.supply.total = trueSupply startup events % 2 ^ 64 ∧
      (∀ slot, startup.slot < slot → (∀ earlier ∈ blockSlots events, earlier < slot) →
        ∀ key, indexer.prevBalance slot key = balance (newest startup events key)) ∧
      ∀ slot, indexer.PinsFit (.sweep slot) → (indexer.step shared (.sweep slot)).isSome = true := by
  have anchored : indexer.supply.status = .stale ∨ Anchored shared startup events indexer := by
    refine @Run.invariant _ _ _ _ _ _ _
      (fun events indexer => indexer.supply.status = .stale ∨ Anchored shared startup events indexer)
      (Or.inr (.start shared startup cap failPinCap)) ?_ run
    intro events indexer event next anchored guard moves
    rcases anchored with stale | anchored
    · exact Or.inl (stale_step stale moves)
    cases event with
    | block slot isRepaired accounts ok =>
      cases moves
      exact anchored.failing guard.1 guard.2.1
    | _ => exact Or.inr (anchored.between guard.1 guard.2.1 nofun moves)
  rcases anchored with stale | window | ⟨counting, above⟩
  · rw [stale] at running
    simp at running
  · rw [window.1.booting] at running
    simp at running
  · have settled := Anchored.settled above
    exact ⟨counting.total_eq settled, fun slot aboveStartup ordered key =>
      counting.prevBalance_eq settled aboveStartup ordered key,
      fun slot fits => Indexer.sweep_isSome (pinsCovered_run run) small fits slot⟩

section Examples

/-- The Clock sysvar, and a stake account with 50 lamports. -/
private def staked : Startup where
  slot := 1
  accounts := [(1, ⟨NonCirculating.clockSysvarId, systemProgramId, 1, [1]⟩), (1, ⟨5, stakeProgramId, 50, []⟩)]
  started := Nat.one_pos
  distinct := by decide
  atOrBelow := by decide
  nonempty := by decide
  clockOwner := by decide

private def bootedStaked : List Event :=
  [.seed 1 ⟨NonCirculating.clockSysvarId, systemProgramId, 1, [1]⟩, .seed 1 ⟨5, stakeProgramId, 50, []⟩,
    .finishNonCirculating, .finishSupply, .finishSnapshot]

/-- A failed block writes a stake account and a plain one, the next block moves the stake account, and a sweep runs. -/
private def failedStake : List Event :=
  bootedStaked ++ [.block 10 false [⟨5, stakeProgramId, 40, []⟩, ⟨6, systemProgramId, 10, []⟩] false,
    .block 11 false [⟨5, systemProgramId, 45, []⟩, ⟨6, systemProgramId, 5, []⟩, ⟨7, systemProgramId, 3, []⟩] true,
    .sweep 4000]

theorem failed_writes_keep_balances_stake :
    ∃ indexer, Run (.start clockOnly 10 10 staked.slot staked.capitalization) (Indexer.step clockOnly)
        (fun events indexer event =>
          FailingSchedule staked events indexer event ∧ FailingCondition indexer event) failedStake indexer ∧
      indexer.supply.total = trueSupply staked failedStake % 2 ^ 64 := by
  have replayed : (Run.replay (Indexer.step clockOnly)
      (fun events indexer event =>
        FailingSchedule staked events indexer event ∧ FailingCondition indexer event) []
      (.start clockOnly 10 10 staked.slot staked.capitalization) failedStake).any
        (fun indexer => decide (indexer.supply.status = .live)) = true := by decide +kernel
  obtain ⟨indexer, ran, live⟩ := (Option.any_eq_true _ _).mp replayed
  have run := Run.replayed ran
  exact ⟨indexer, run, (failed_writes_keep_balances (by decide) run (Or.inl (of_decide_eq_true live))).1⟩

/-- The failed block itself takes the account away from the stake program. -/
private def failedTransfer : List Event :=
  bootedStaked ++ [.block 10 false [⟨5, systemProgramId, 40, []⟩] false,
    .block 11 false [⟨5, systemProgramId, 45, []⟩] true]

/-- A failed block writes an account that the cache does not hold. -/
private def failedMiss : List Event :=
  bootedStaked ++ [.block 10 false [⟨6, systemProgramId, 10, []⟩] false]

/-- The stake map handled the failed write, so nothing was pinned: the block at 11 reads the startup row and
counts against 50 lamports instead of 40. And the missed account of a failed block is pinned twice, so that the
next sweep panics. -/
theorem failed_transfer_is_not_pinned :
    (∃ indexer, Run (.start clockOnly 10 10 staked.slot staked.capitalization) (Indexer.step clockOnly)
        (FailingSchedule staked) failedTransfer indexer ∧ indexer.supply.status = .live ∧
      indexer.supply.total ≠ trueSupply staked failedTransfer % 2 ^ 64) ∧
    ∃ indexer, Run (.start clockOnly 10 10 staked.slot staked.capitalization) (Indexer.step clockOnly)
        (FailingSchedule staked) failedMiss indexer ∧ indexer.supply.status = .live ∧
      indexer.step clockOnly (.sweep 11) = none := by
  have replayed : (Run.replay (Indexer.step clockOnly) (FailingSchedule staked) []
      (.start clockOnly 10 10 staked.slot staked.capitalization) failedTransfer).any
        (fun indexer => decide (indexer.supply.status = .live ∧ indexer.supply.total ≠
          (((staked.accounts.map fun account => account.2.pubkey) ++ writtenKeys failedTransfer).dedup.map
            fun key => balance (newest staked failedTransfer key)).sum % 2 ^ 64)) = true := by decide +kernel
  have missed : (Run.replay (Indexer.step clockOnly) (FailingSchedule staked) []
      (.start clockOnly 10 10 staked.slot staked.capitalization) failedMiss).any
        (fun indexer => decide (indexer.supply.status = .live) && (indexer.step clockOnly (.sweep 11)).isNone) =
          true := by
    decide +kernel
  obtain ⟨indexer, ran, wrong⟩ := (Option.any_eq_true _ _).mp replayed
  obtain ⟨unswept, ranMissed, panics⟩ := (Option.any_eq_true _ _).mp missed
  rw [← trueSupply_eq_sum] at wrong
  obtain ⟨live, none⟩ := Bool.and_eq_true_iff.mp panics
  exact ⟨⟨indexer, Run.replayed ran, of_decide_eq_true wrong⟩,
    ⟨unswept, Run.replayed ranMissed, of_decide_eq_true live, Option.isNone_iff_eq_none.mp none⟩⟩

end Examples

end Cloudbreak.Model.Supply
