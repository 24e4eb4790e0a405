import Cloudbreak.Proofs.Supply.GapRepair

/-! # The total over bootstrap and live operation

Blocks arrive in slot order while the tracker is bootstrapping and after it went live, and every write is
stored. After each committed block the total is the sum of the newest balances, as long as a live block at
or below the startup slot does not reopen an account that the window closed, and no close is forgotten
while the rows still show its account alive.
-/

namespace Cloudbreak.Model.Supply

open Cloudbreak.ToMathlib
open NonCirculating (Shared Version versionAt stakeProgramId)
open Indexer (Event)

/-- When an in-order block may come. The snapshot has the state of the startup slot: a block at or below it
wrote nothing newer than the snapshot's version, and the first block above it finds the two settled. -/
def InOrderBlock (startup : Startup) (events : List Event) (slot : ℕ) (isRepaired : Bool)
    (accounts : List AccountInfo) (ok : Bool) : Prop :=
  isRepaired = false ∧ ok = true ∧ (accounts.map AccountInfo.pubkey).Nodup ∧ 0 < slot ∧
    (∀ earlier ∈ blockSlots events, earlier < slot) ∧
    (∀ account ∈ accounts, account.lamports = 0 → account.owner = systemProgramId) ∧
    (slot ≤ startup.slot → ∀ account ∈ accounts, ∀ first ∈ startup.ledger account.pubkey,
      slot ≤ first.slot ∧ (slot = first.slot → first = versionAt slot account)) ∧
    (startup.slot < slot → Settled startup events)

/-- The schedule of a bootstrap and of the live operation after it. -/
def InOrderSchedule (startup : Startup) (events : List Event) (indexer : Indexer) : Event → Prop :=
  indexer.Scheduled startup events (InOrderBlock startup events)

/-- What a block must not do once the tracker is live. -/
structure InOrderSafe (startup : Startup) (indexer : Indexer) (slot : ℕ) (account : AccountInfo) : Prop where
  /-- A block that the live tracker skips leaves the accounts closed that the window closed. -/
  stillClosed : slot ≤ startup.slot → account.pubkey ∈ indexer.supply.startupZeroPrev → account.lamports = 0
  /-- A close that leaves no mark and no tombstone behind is stored, or there is no row it would have to hide. -/
  closeStored : account.lamports = 0 →
    (slot ≤ startup.slot ∧ account.pubkey ∉ indexer.supply.startupZeroPrev ∧ startup.ledger account.pubkey = none ∨
      startup.slot < slot ∧ (indexer.nonCirculating.held account.pubkey).any Version.stakeOwned = true) →
    indexer.snapshotFinished = true ∨ indexer.row account.pubkey = none

/-- The condition on each event of an in-order run. -/
def InOrderCondition (startup : Startup) (indexer : Indexer) : Event → Prop :=
  indexer.Condition fun slot _ accounts _ => indexer.supply.status ≠ .bootstrapping →
    ∀ account ∈ accounts, InOrderSafe startup indexer slot account

section Decide

variable (startup : Startup) (events : List Event) (indexer : Indexer)

-- over the written accounts, not over all keys
instance : Decidable (Settled startup events) :=
  List.decidableBAll (fun key => ∀ version ∈ delivered events key, version.slot ≤ startup.slot →
    startup.ledger key = some version ∨ startup.ledger key = none ∧ version.lamports = 0) (writtenKeys events)

instance (slot : ℕ) (isRepaired : Bool) (accounts : List AccountInfo) (ok : Bool) :
    Decidable (InOrderBlock startup events slot isRepaired accounts ok) :=
  inferInstanceAs (Decidable (_ ∧ _ ∧ _ ∧ _ ∧ _ ∧ _ ∧ (_ → ∀ account ∈ accounts,
    ∀ first ∈ startup.ledger account.pubkey, _) ∧ _))

instance (event : Event) : Decidable (InOrderSchedule startup events indexer event) :=
  inferInstanceAs (Decidable (indexer.Scheduled startup events _ event))

instance (slot : ℕ) (account : AccountInfo) : Decidable (InOrderSafe startup indexer slot account) :=
  decidable_of_iff
    ((slot ≤ startup.slot → account.pubkey ∈ indexer.supply.startupZeroPrev → account.lamports = 0) ∧
      (account.lamports = 0 →
        (slot ≤ startup.slot ∧ account.pubkey ∉ indexer.supply.startupZeroPrev ∧
            startup.ledger account.pubkey = none ∨
          startup.slot < slot ∧ (indexer.nonCirculating.held account.pubkey).any Version.stakeOwned = true) →
        indexer.snapshotFinished = true ∨ indexer.row account.pubkey = none))
    ⟨fun ⟨stillClosed, closeStored⟩ => ⟨stillClosed, closeStored⟩, fun safe => ⟨safe.stillClosed, safe.closeStored⟩⟩

instance (event : Event) : Decidable (InOrderCondition startup indexer event) :=
  inferInstanceAs (Decidable (indexer.Condition _ event))

end Decide

/-- What an in-order run keeps. -/
def InOrder (shared : Shared) (startup : Startup) (events : List Event) (indexer : Indexer) : Prop :=
  Window shared startup events indexer ∨ ∃ closed, Counting shared startup closed events indexer

section Step

variable {shared : Shared} {startup : Startup} {events : List Event} {indexer next : Indexer} {event : Event}

private theorem settled_iff : Settled startup events ↔ SettledLedger startup (delivered events) := by
  constructor
  · intro settled key version isDelivered
    by_cases written : key ∈ writtenKeys events
    · exact settled key written version isDelivered
    · rw [delivered_of_not_written written] at isDelivered
      contradiction
  · exact fun settled key _ version isDelivered => settled key version isDelivered

theorem InOrder.between (inOrder : InOrder shared startup events indexer)
    (guard : InOrderSchedule startup events indexer event) (condition : InOrderCondition startup indexer event)
    (noBlock : ∀ slot isRepaired accounts ok, event ≠ .block slot isRepaired accounts ok)
    (moves : indexer.step shared event = some next) : InOrder shared startup (events ++ [event]) next := by
  rcases inOrder with window | ⟨closed, counting⟩
  · exact (window.between guard noBlock moves).imp id fun counting => ⟨_, counting⟩
  · exact Or.inr ⟨closed, counting.between guard condition noBlock moves⟩

theorem InOrder.block (inOrder : InOrder shared startup events indexer) {slot : ℕ} {isRepaired ok : Bool}
    {accounts : List AccountInfo} (guard : InOrderBlock startup events slot isRepaired accounts ok)
    (safe : indexer.supply.status ≠ .bootstrapping → ∀ account ∈ accounts, InOrderSafe startup indexer slot account) :
    InOrder shared startup (events ++ [.block slot isRepaired accounts ok])
      (indexer.saveBlock shared slot isRepaired accounts ok) := by
  obtain ⟨rfl, rfl, distinct, positive, ordered, plain, consistent, settled⟩ := guard
  have settled := fun above => settled_iff.mp (settled above)
  have plain : ∀ account ∈ accounts, account.lamports = 0 → account.owner ≠ stakeProgramId := by
    intro account member empty
    rw [plain account member empty]
    decide
  rcases inOrder with window | ⟨closed, counting⟩
  · refine Or.inl (window.block positive distinct ordered settled fun account member => ⟨?_, plain account member⟩)
    intro first isStartup same
    have below := same ▸ (startup.ledger_bounds isStartup).1
    exact (consistent below account member first isStartup).2 same.symm
  have running : indexer.supply.status ≠ .bootstrapping := by
    rcases counting.running with live | gap
    · rw [live]; decide
    · rw [gap]; decide
  have safe := safe running
  refine Or.inr ⟨closed, ?_⟩
  by_cases below : slot ≤ startup.slot
  · refine counting.block_idle below positive distinct ordered fun account member => ?_
    have safe := safe account member
    refine ⟨consistent below account member, fun marked => safe.stillClosed below (of_decide_eq_true marked),
      plain account member, fun empty unmarked absent => ?_⟩
    exact safe.closeStored empty (Or.inl ⟨below, of_decide_eq_false unmarked, absent⟩)
  · have above := not_le.mp below
    have inOrder : ∀ account ∈ accounts, ∀ last, newest startup events account.pubkey = some last →
        last.slot < slot := by
      intro account _ last isNewest
      rcases Counting.newest_slot isNewest with atStartup | inBlock
      · omega
      · exact ordered _ inBlock
    have allowed : ∀ account ∈ accounts, AccountOk (newest startup events account.pubkey)
        (indexer.nonCirculating.held account.pubkey) (supplyView indexer.supply account.pubkey)
        (indexer.row account.pubkey) indexer.snapshotFinished slot false true account := by
      intro account member
      have later := inOrder account member
      refine ⟨nofun, ?_, ?_, ?_, fun owned _ empty => (safe account member).closeStored empty (Or.inr ⟨above, owned⟩),
        nofun⟩
      · exact fun last isNewest older => absurd (later last isNewest) (Nat.lt_asymm older)
      · exact fun last isNewest older => absurd (later last isNewest) (Nat.lt_asymm older)
      · exact fun last isNewest older => absurd (later last isNewest) (Nat.lt_asymm older)
    have unseen : slot ∉ blockSlots events := fun inBlock => lt_irrefl _ (ordered slot inBlock)
    exact (counting.block above distinct unseen (fun _ => ordered) (settled above) allowed).resolve_left
      fun failed => nomatch failed.1

end Step

/-- In every in-order run that keeps the condition, the total of a live tracker is the sum of the newest
balances once a block above the startup slot was delivered. -/
theorem committed_total_is_exact {shared : Shared} {startup : Startup} {cap failPinCap : ℕ} {events : List Event}
    {indexer : Indexer}
    (run : Run (.start shared cap failPinCap startup.slot startup.capitalization) (Indexer.step shared)
      (fun events indexer event =>
        InOrderSchedule startup events indexer event ∧ InOrderCondition startup indexer event) events indexer)
    (live : indexer.supply.status ≠ .bootstrapping) (committed : ∃ slot ∈ blockSlots events, startup.slot < slot) :
    indexer.supply.total = trueSupply startup events % 2 ^ 64 := by
  have inOrder : InOrder shared startup events indexer := by
    refine run.invariant (Or.inl (.start shared startup cap failPinCap)) ?_
    intro events indexer event next inOrder guard moves
    cases event with
    | block slot isRepaired accounts ok =>
      cases moves
      exact inOrder.block guard.1 guard.2
    | _ => exact inOrder.between guard.1 guard.2 nofun moves
  rcases inOrder with window | ⟨closed, counting⟩
  · exact absurd window.booting live
  · exact counting.total_eq (counting.settled committed)

section Examples

/-- The Clock sysvar, and an account that was closed at 5 and reopened at 8. -/
private def reopened : Startup where
  slot := 10
  accounts := [(10, ⟨NonCirculating.clockSysvarId, systemProgramId, 1, [1]⟩), (8, ⟨5, systemProgramId, 5, []⟩)]
  started := by decide
  distinct := by decide
  atOrBelow := by decide
  nonempty := by decide
  clockOwner := by decide

private def read : List Event :=
  [.seed 10 ⟨NonCirculating.clockSysvarId, systemProgramId, 1, [1]⟩, .block 5 false [⟨5, systemProgramId, 0, []⟩] true,
    .seed 8 ⟨5, systemProgramId, 5, []⟩, .finishNonCirculating]

/-- The window sees the account reopened. -/
private def reopenedInWindow : List Event :=
  read ++ [.block 8 false [⟨5, systemProgramId, 5, []⟩] true, .finishSupply, .finishSnapshot,
    .block 15 false [⟨5, systemProgramId, 7, []⟩] true]

theorem committed_total_is_exact_reopened :
    ∃ indexer, Run (.start clockOnly 10 10 reopened.slot reopened.capitalization) (Indexer.step clockOnly)
        (fun events indexer event =>
          InOrderSchedule reopened events indexer event ∧ InOrderCondition reopened indexer event)
        reopenedInWindow indexer ∧
      indexer.supply.total = trueSupply reopened reopenedInWindow % 2 ^ 64 := by
  have replayed : (Run.replay (Indexer.step clockOnly)
      (fun events indexer event =>
        InOrderSchedule reopened events indexer event ∧ InOrderCondition reopened indexer event) []
      (.start clockOnly 10 10 reopened.slot reopened.capitalization) reopenedInWindow).any
        (fun indexer => decide (indexer.supply.status ≠ .bootstrapping)) = true := by decide +kernel
  obtain ⟨indexer, ran, live⟩ := (Option.any_eq_true _ _).mp replayed
  have run := Run.replayed ran
  exact ⟨indexer, run, committed_total_is_exact run (of_decide_eq_true live) ⟨15, by decide, by decide⟩⟩

/-- The tracker goes live between the close and the reopening. -/
private def reopenedAfterWindow : List Event :=
  read ++ [.finishSupply, .finishSnapshot, .block 8 false [⟨5, systemProgramId, 5, []⟩] true,
    .block 15 false [⟨5, systemProgramId, 7, []⟩] true]

/-- The block at 8 is skipped and leaves the zero-prev mark, so the block at 15 counts 7 lamports instead of
2: the total is 13 where the supply is 8. -/
theorem skipped_reopening_is_counted_again :
    ∃ indexer, Run (.start clockOnly 10 10 reopened.slot reopened.capitalization) (Indexer.step clockOnly)
        (InOrderSchedule reopened) reopenedAfterWindow indexer ∧ indexer.supply.status = .live ∧
      (∃ slot ∈ blockSlots reopenedAfterWindow, reopened.slot < slot) ∧
      indexer.supply.total ≠ trueSupply reopened reopenedAfterWindow % 2 ^ 64 := by
  have replayed : (Run.replay (Indexer.step clockOnly) (InOrderSchedule reopened) []
      (.start clockOnly 10 10 reopened.slot reopened.capitalization) reopenedAfterWindow).any
        (fun indexer => decide (indexer.supply.status = .live ∧ indexer.supply.total ≠
          (((reopened.accounts.map fun account => account.2.pubkey) ++ writtenKeys reopenedAfterWindow).dedup.map
            fun key => balance (newest reopened reopenedAfterWindow key)).sum % 2 ^ 64)) = true := by decide +kernel
  obtain ⟨indexer, ran, wrong⟩ := (Option.any_eq_true _ _).mp replayed
  rw [← trueSupply_eq_sum] at wrong
  obtain ⟨live, differs⟩ := of_decide_eq_true wrong
  have run := Run.replayed ran
  exact ⟨indexer, run, live, ⟨15, by decide, by decide⟩, differs⟩

end Examples

end Cloudbreak.Model.Supply
