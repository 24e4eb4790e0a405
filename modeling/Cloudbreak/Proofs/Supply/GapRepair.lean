import Cloudbreak.Proofs.Supply.Tracked

/-! # The total under gap repair

Live blocks arrive in ascending slot order, the blocks missing from a gap arrive later as repaired ones in
any order, and every write is stored. The total is then the sum of the newest balances, as long as no late
write brings an account to the stake map that the map does not know, and no close is forgotten while the
rows still show its account alive.
-/

namespace Cloudbreak.Model.Supply

open Cloudbreak.ToMathlib
open NonCirculating (Shared Version stakeProgramId)
open Indexer (Event)

/-- When a block of a gap repair may come. -/
def RepairBlock (startup : Startup) (events : List Event) (indexer : Indexer) (slot : ℕ) (isRepaired : Bool)
    (accounts : List AccountInfo) (ok : Bool) : Prop :=
  indexer.supply.status ≠ .bootstrapping ∧ ok = true ∧ (accounts.map AccountInfo.pubkey).Nodup ∧
    startup.slot < slot ∧ slot ∉ blockSlots events ∧
    (isRepaired = false → ∀ earlier ∈ blockSlots events, earlier < slot) ∧
    (isRepaired = true → indexer.supply.status = .gapFilling)

/-- The schedule of a gap repair over a live indexer. -/
def RepairSchedule (startup : Startup) (events : List Event) (indexer : Indexer) : Event → Prop :=
  indexer.Scheduled startup events (RepairBlock startup events indexer)

/-- What a write of a repaired block, or a close, must not do. -/
structure RepairSafe (startup : Startup) (events : List Event) (indexer : Indexer) (slot : ℕ)
    (account : AccountInfo) : Prop where
  /-- A stake-owned write below the newest version belongs to an account the stake map has an entry for. -/
  known : ∀ last ∈ newest startup events account.pubkey, slot < last.slot → account.owner = stakeProgramId →
    indexer.nonCirculating.held account.pubkey ≠ none
  /-- A live write below a close stores no first row of its account, unless the close is still cached. -/
  hidden : ∀ last ∈ newest startup events account.pubkey, slot < last.slot → last.lamports = 0 →
    indexer.row account.pubkey = none →
      account.lamports = 0 ∨ (supplyView indexer.supply account.pubkey).cached.any (·.slot = last.slot) = true
  /-- A close of an account the stake map owns is stored, or there is no row it would have to hide. -/
  closeStored : (indexer.nonCirculating.held account.pubkey).any Version.stakeOwned = true →
    account.lamports = 0 → indexer.snapshotFinished = true ∨ indexer.row account.pubkey = none

/-- The condition on each event of a gap repair. -/
def RepairCondition (startup : Startup) (events : List Event) (indexer : Indexer) : Event → Prop :=
  indexer.Condition fun slot _ accounts _ => ∀ account ∈ accounts, RepairSafe startup events indexer slot account

section Decide

variable (startup : Startup) (events : List Event) (indexer : Indexer)

instance (slot : ℕ) (isRepaired : Bool) (accounts : List AccountInfo) (ok : Bool) :
    Decidable (RepairBlock startup events indexer slot isRepaired accounts ok) :=
  inferInstanceAs (Decidable (_ ∧ _ ∧ _ ∧ _ ∧ _ ∧ _ ∧ _))

instance (event : Event) : Decidable (RepairSchedule startup events indexer event) :=
  inferInstanceAs (Decidable (indexer.Scheduled startup events _ event))

instance (slot : ℕ) (account : AccountInfo) : Decidable (RepairSafe startup events indexer slot account) :=
  decidable_of_iff
    ((∀ last ∈ newest startup events account.pubkey, slot < last.slot → account.owner = stakeProgramId →
        indexer.nonCirculating.held account.pubkey ≠ none) ∧
      (∀ last ∈ newest startup events account.pubkey, slot < last.slot → last.lamports = 0 →
        indexer.row account.pubkey = none →
          account.lamports = 0 ∨ (supplyView indexer.supply account.pubkey).cached.any (·.slot = last.slot) = true) ∧
      ((indexer.nonCirculating.held account.pubkey).any Version.stakeOwned = true →
        account.lamports = 0 → indexer.snapshotFinished = true ∨ indexer.row account.pubkey = none))
    ⟨fun ⟨known, hidden, closeStored⟩ => ⟨known, hidden, closeStored⟩,
      fun safe => ⟨safe.known, safe.hidden, safe.closeStored⟩⟩

instance (event : Event) : Decidable (RepairCondition startup events indexer event) :=
  inferInstanceAs (Decidable (indexer.Condition _ event))

end Decide

section Step

variable {shared : Shared} {startup : Startup} {events : List Event} {indexer : Indexer}

private theorem Anchored.repair (anchored : Anchored shared startup events indexer) {slot : ℕ} {isRepaired ok : Bool}
    {accounts : List AccountInfo} (guard : RepairBlock startup events indexer slot isRepaired accounts ok)
    (safe : ∀ account ∈ accounts, RepairSafe startup events indexer slot account) :
    Anchored shared startup (events ++ [.block slot isRepaired accounts ok])
      (indexer.saveBlock shared slot isRepaired accounts ok) := by
  obtain ⟨started, rfl, distinct, aboveStartup, unseen, ordered, _⟩ := guard
  have stepped := anchored.block started distinct aboveStartup unseen ordered fun account member unmarked =>
    { stored := fun _ => rfl
      consumed := fun _ _ _ => unmarked
      known := (safe account member).known
      visible := (safe account member).hidden
      closeStored := fun owned _ => (safe account member).closeStored owned
      failedStays := nofun }
  exact stepped.resolve_left fun failed => nomatch failed.1

end Step

/-- In every repair run that keeps the condition, a live total is the sum of the newest balances. -/
theorem repaired_total_is_exact {shared : Shared} {startup : Startup} {cap failPinCap : ℕ} {events : List Event}
    {indexer : Indexer}
    (run : Run (.start shared cap failPinCap startup.slot startup.capitalization) (Indexer.step shared)
      (fun events indexer event =>
        RepairSchedule startup events indexer event ∧ RepairCondition startup events indexer event) events indexer)
    (live : indexer.supply.status ≠ .bootstrapping) :
    indexer.supply.total = trueSupply startup events % 2 ^ 64 := by
  have anchored : Anchored shared startup events indexer := by
    refine run.invariant (.start shared startup cap failPinCap) ?_
    intro events indexer event next anchored guard moves
    cases event with
    | block slot isRepaired accounts ok =>
      cases moves
      exact anchored.repair guard.1 guard.2
    | _ => exact anchored.between guard.1 guard.2 nofun moves
  exact anchored.total_eq live

section Examples

/-- A configuration that knows one Clock payload and no pinned account. -/
def clockOnly : Shared where
  pinned := ∅
  withdrawAuthorities := ∅
  deserializeClock := fun data => if data = [1] then some ⟨1, 0, 0⟩ else none
  deserializeStake := fun _ => none
  clockNotPinned := Finset.notMem_empty _

/-- The Clock sysvar with one lamport is the whole snapshot at slot 1. -/
private def oneLamport : Startup where
  slot := 1
  accounts := [(1, ⟨NonCirculating.clockSysvarId, systemProgramId, 1, [1]⟩)]
  started := by decide
  distinct := by decide
  atOrBelow := by decide
  nonempty := by decide
  clockOwner := by decide

private def booted : List Event :=
  [.seed 1 ⟨NonCirculating.clockSysvarId, systemProgramId, 1, [1]⟩, .finishNonCirculating, .finishSupply, .finishSnapshot]

/-- The repaired block creates an account whose close was seen first. -/
private def repairedCreation : List Event :=
  booted ++ [.markGap, .block 20 false [⟨5, systemProgramId, 0, []⟩] true,
    .block 10 true [⟨5, systemProgramId, 7, []⟩] true, .finishGap, .block 30 false [⟨5, systemProgramId, 4, []⟩] true]

theorem repaired_total_is_exact_creation :
    ∃ indexer, Run (.start clockOnly 10 10 oneLamport.slot oneLamport.capitalization) (Indexer.step clockOnly)
        (fun events indexer event =>
          RepairSchedule oneLamport events indexer event ∧ RepairCondition oneLamport events indexer event)
        repairedCreation indexer ∧
      indexer.supply.total = trueSupply oneLamport repairedCreation % 2 ^ 64 := by
  have replayed : (Run.replay (Indexer.step clockOnly)
      (fun events indexer event =>
        RepairSchedule oneLamport events indexer event ∧ RepairCondition oneLamport events indexer event) []
      (.start clockOnly 10 10 oneLamport.slot oneLamport.capitalization) repairedCreation).any
        (fun indexer => decide (indexer.supply.status ≠ .bootstrapping)) = true := by decide +kernel
  obtain ⟨indexer, ran, live⟩ := (Option.any_eq_true _ _).mp replayed
  have run := Run.replayed ran
  exact ⟨indexer, run, repaired_total_is_exact run (of_decide_eq_true live)⟩

/-- The repaired block writes stake-owned what a later block had as a plain account. -/
private def repairedStake : List Event :=
  booted ++ [.markGap, .block 20 false [⟨5, systemProgramId, 3, []⟩] true,
    .block 10 true [⟨5, stakeProgramId, 7, []⟩] true, .finishGap, .block 30 false [⟨5, systemProgramId, 4, []⟩] true]

/-- The stake map takes the old version for the newest, so the block at 30 is counted against 7 lamports
instead of 3: the total is 1 where the supply is 5. -/
theorem late_stake_write_is_counted_against :
    ∃ indexer, Run (.start clockOnly 10 10 oneLamport.slot oneLamport.capitalization) (Indexer.step clockOnly)
        (RepairSchedule oneLamport) repairedStake indexer ∧
      indexer.supply.status = .live ∧ indexer.supply.total ≠ trueSupply oneLamport repairedStake % 2 ^ 64 := by
  have replayed : (Run.replay (Indexer.step clockOnly) (RepairSchedule oneLamport) []
      (.start clockOnly 10 10 oneLamport.slot oneLamport.capitalization) repairedStake).any
        (fun indexer => decide (indexer.supply.status = .live ∧ indexer.supply.total ≠
          (((oneLamport.accounts.map fun account => account.2.pubkey) ++ writtenKeys repairedStake).dedup.map fun key =>
            balance (newest oneLamport repairedStake key)).sum % 2 ^ 64)) = true := by decide +kernel
  obtain ⟨indexer, ran, wrong⟩ := (Option.any_eq_true _ _).mp replayed
  rw [← trueSupply_eq_sum] at wrong
  have run := Run.replayed ran
  exact ⟨indexer, run, of_decide_eq_true wrong⟩

end Examples

end Cloudbreak.Model.Supply
