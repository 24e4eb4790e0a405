import Cloudbreak.Proofs.Supply.GoLive

/-! # Runs of the indexer

The events beside the blocks come alike in every schedule: the snapshot is seeded once and completely, and
the stake map goes live before the tracker. While no sweep evicts a tombstone that the rows contradict,
these events take a window to a window or to a live tracker, and a live tracker to a live one.
-/

namespace Cloudbreak.Model.Supply

open Cloudbreak.ToMathlib
open NonCirculating (Shared Version)
open Indexer (Event)

/-- The whole snapshot was read. -/
def Startup.Read (startup : Startup) (events : List Event) : Prop :=
  ∀ account ∈ startup.accounts, account ∈ seeded events

/-- When an event may come: a schedule says it for the blocks, the rest is common to all schedules. -/
def Indexer.Scheduled (startup : Startup) (events : List Event) (indexer : Indexer)
    (block : ℕ → Bool → List AccountInfo → Bool → Prop) : Event → Prop
  | .seed slot account => indexer.nonCirculating.status = .bootstrapping ∧
      (slot, account) ∈ startup.accounts ∧ (slot, account) ∉ seeded events
  | .block slot isRepaired accounts ok => block slot isRepaired accounts ok
  | .finishNonCirculating => startup.Read events
  | .finishSupply => startup.Read events ∧ indexer.nonCirculating.status = .live
  | .finishSnapshot | .markGap | .finishGap | .sweep _ => True

/-- The condition a result puts on the blocks, and the one that all of them put on the sweeps. -/
def Indexer.Condition (indexer : Indexer) (block : ℕ → Bool → List AccountInfo → Bool → Prop) : Event → Prop
  | .block slot isRepaired accounts ok => block slot isRepaired accounts ok
  | .sweep slot => indexer.SweepShows slot
  | .seed .. | .finishNonCirculating | .finishSupply | .finishSnapshot | .markGap | .finishGap => True

section Decide

variable (startup : Startup) (events : List Event) (indexer : Indexer)
  (block : ℕ → Bool → List AccountInfo → Bool → Prop)
  [∀ slot isRepaired accounts ok, Decidable (block slot isRepaired accounts ok)]

instance (event : Event) : Decidable (indexer.Scheduled startup events block event) :=
  match event with
  | .seed .. => inferInstanceAs (Decidable (_ ∧ _ ∧ _))
  | .block slot isRepaired accounts ok => inferInstanceAs (Decidable (block slot isRepaired accounts ok))
  | .finishNonCirculating => inferInstanceAs (Decidable (∀ account ∈ startup.accounts, _))
  | .finishSupply => inferInstanceAs (Decidable ((∀ account ∈ startup.accounts, _) ∧ _))
  | .finishSnapshot | .markGap | .finishGap | .sweep _ => inferInstanceAs (Decidable True)

instance (event : Event) : Decidable (indexer.Condition block event) :=
  match event with
  | .block slot isRepaired accounts ok => inferInstanceAs (Decidable (block slot isRepaired accounts ok))
  | .sweep slot => inferInstanceAs (Decidable (∀ swept ∈ indexer.supply.sweepIfDue slot, _))
  | .seed .. | .finishNonCirculating | .finishSupply | .finishSnapshot | .markGap | .finishGap =>
    inferInstanceAs (Decidable True)

end Decide

variable {blockOk harmless : ℕ → Bool → List AccountInfo → Bool → Prop}
variable {shared : Shared} {startup : Startup} {closed : Set Pubkey} {events : List Event} {indexer next : Indexer}
  {event : Event}

/-- A stale tracker stays stale. -/
theorem stale_step (stale : indexer.supply.status = .stale) (moves : indexer.step shared event = some next) :
    next.supply.status = .stale := by
  cases event with
  | seed slot account => cases moves; exact stale
  | block slot isRepaired accounts ok =>
    cases moves
    simp only [Indexer.saveBlock, SupplyState.applyBlock, SupplyState.probeBlock, stale, SupplyState.finishBlock]
  | finishNonCirculating =>
    obtain ⟨_, _, same⟩ := Option.bind_eq_some_iff.mp moves
    cases same
    exact stale
  | finishSupply =>
    obtain ⟨_, finished, _⟩ := Option.bind_eq_some_iff.mp moves
    rw [SupplyState.finishBootstrap, if_pos (Or.inl (by rw [stale]; decide))] at finished
    contradiction
  | finishSnapshot => cases moves; exact stale
  | markGap =>
    cases moves
    simp [SupplyState.markGap, stale]
  | finishGap =>
    cases moves
    simp [SupplyState.finishGap, stale]
  | sweep slot =>
    obtain ⟨supply, swept, same⟩ := Option.bind_eq_some_iff.mp moves
    cases same
    unfold SupplyState.sweepIfDue at swept
    split at swept
    · obtain ⟨_, _, same⟩ := Option.bind_eq_some_iff.mp swept
      cases same
      exact stale
    · cases swept
      exact stale

/-- Between blocks a live tracker stays exact. -/
theorem Counting.between (counting : Counting shared startup closed events indexer)
    (guard : indexer.Scheduled startup events blockOk event) (condition : indexer.Condition harmless event)
    (noBlock : ∀ slot isRepaired accounts ok, event ≠ .block slot isRepaired accounts ok)
    (moves : indexer.step shared event = some next) : Counting shared startup closed (events ++ [event]) next := by
  cases event with
  | block slot isRepaired accounts ok => exact absurd rfl (noBlock slot isRepaired accounts ok)
  | seed slot account =>
    have booting := guard.1
    rw [counting.mapLive] at booting
    contradiction
  | finishNonCirculating =>
    obtain ⟨_, finished, _⟩ := Option.bind_eq_some_iff.mp moves
    rw [NonCirculating.State.finishBootstrap, if_pos counting.mapLive] at finished
    contradiction
  | finishSupply =>
    obtain ⟨_, finished, _⟩ := Option.bind_eq_some_iff.mp moves
    have running : indexer.supply.status ≠ .bootstrapping := by
      rcases counting.running with live | gap
      · rw [live]; decide
      · rw [gap]; decide
    rw [SupplyState.finishBootstrap, if_pos (Or.inl running)] at finished
    contradiction
  | finishSnapshot => cases moves; exact counting.finishSnapshot
  | markGap => cases moves; exact counting.markGap
  | finishGap => cases moves; exact counting.finishGap
  | sweep slot =>
    obtain ⟨supply, swept, same⟩ := Option.bind_eq_some_iff.mp moves
    cases same
    exact counting.sweep condition swept

/-- Between blocks a window stays a window, or the tracker goes live. -/
theorem Window.between (window : Window shared startup events indexer)
    (guard : indexer.Scheduled startup events blockOk event)
    (noBlock : ∀ slot isRepaired accounts ok, event ≠ .block slot isRepaired accounts ok)
    (moves : indexer.step shared event = some next) :
    Window shared startup (events ++ [event]) next ∨
      Counting shared startup { key | (delivered events key).isSome } (events ++ [event]) next := by
  cases event with
  | block slot isRepaired accounts ok => exact absurd rfl (noBlock slot isRepaired accounts ok)
  | seed slot account => exact Or.inl (window.seed guard.1 guard.2.1 guard.2.2 moves)
  | finishNonCirculating => exact Or.inl (window.finishNonCirculating guard moves)
  | finishSupply => exact Or.inr (window.finishSupply guard.1 guard.2 moves)
  | finishSnapshot =>
    cases moves
    exact Or.inl (window.transfer nofun nofun rfl rfl rfl window.booting rfl rfl rfl rfl window.unmarked)
  | markGap =>
    cases moves
    have same : indexer.supply.markGap.1 = indexer.supply := by simp [SupplyState.markGap, window.booting]
    rw [same]
    exact Or.inl (window.transfer nofun nofun rfl rfl rfl window.booting rfl rfl rfl rfl window.unmarked)
  | finishGap =>
    cases moves
    have same : indexer.supply.finishGap = indexer.supply := by simp [SupplyState.finishGap, window.booting]
    rw [same]
    exact Or.inl (window.transfer nofun nofun rfl rfl rfl window.booting rfl rfl rfl rfl window.unmarked)
  | sweep slot =>
    obtain ⟨supply, swept, same⟩ := Option.bind_eq_some_iff.mp moves
    cases same
    unfold SupplyState.sweepIfDue at swept
    split at swept
    · obtain ⟨⟨cache, evicted⟩, ran, same⟩ := Option.bind_eq_some_iff.mp swept
      cases same
      -- the cache was empty, and a sweep brings no entry back
      have unmarked : ∀ key, supplyView { indexer.supply with cache } key = ⟨none, false, none⟩ := by
        intro key
        have before := window.unmarked key
        have absent : indexer.supply.cache.map.lookup key = none := congrArg SupplyView.cached before
        have kept : cache.map.lookup key = indexer.supply.cache.map.lookup key := by
          rcases HotAccounts.lookup_sweep ran key with same | ⟨gone, _⟩
          · exact same
          · rw [gone, absent]
        rw [← before]
        exact congrArg (SupplyView.mk · _ _) kept
      exact Or.inl (window.transfer nofun nofun rfl rfl rfl window.booting rfl rfl rfl rfl unmarked)
    · cases swept
      exact Or.inl (window.transfer nofun nofun rfl rfl rfl window.booting rfl rfl rfl rfl window.unmarked)

/-- A run without blocks before the tracker went live: every block lies above the startup slot, and no
account is marked. -/
def Anchored (shared : Shared) (startup : Startup) (events : List Event) (indexer : Indexer) : Prop :=
  Window shared startup events indexer ∧ blockSlots events = [] ∨
    Counting shared startup ∅ events indexer ∧ ∀ slot ∈ blockSlots events, startup.slot < slot

namespace Anchored

theorem start (shared : Shared) (startup : Startup) (cap failPinCap : ℕ) :
    Anchored shared startup [] (.start shared cap failPinCap startup.slot startup.capitalization) :=
  Or.inl ⟨.start shared startup cap failPinCap, rfl⟩

/-- When every block lies above the startup slot, the snapshot and the blocks cannot disagree. -/
theorem settled (above : ∀ slot ∈ blockSlots events, startup.slot < slot) :
    SettledLedger startup (delivered events) := by
  intro key version isDelivered below
  have := above _ (slot_mem_of_delivered events isDelivered)
  omega

theorem between (anchored : Anchored shared startup events indexer)
    (guard : indexer.Scheduled startup events blockOk event) (condition : indexer.Condition harmless event)
    (noBlock : ∀ slot isRepaired accounts ok, event ≠ .block slot isRepaired accounts ok)
    (moves : indexer.step shared event = some next) : Anchored shared startup (events ++ [event]) next := by
  obtain ⟨_, sameSlots⟩ := delivered_other events noBlock
  rcases anchored with ⟨window, noBlocks⟩ | ⟨counting, above⟩
  · rcases window.between guard noBlock moves with window | counting
    · exact Or.inl ⟨window, sameSlots.trans noBlocks⟩
    · refine Or.inr ⟨?_, by simp [sameSlots, noBlocks]⟩
      have unclosed : { key | (delivered events key).isSome = true } = (∅ : Set Pubkey) := by
        refine Set.eq_empty_of_forall_notMem fun key some_ => ?_
        obtain ⟨version, isDelivered⟩ := Option.isSome_iff_exists.mp some_
        have := slot_mem_of_delivered events isDelivered
        simp [noBlocks] at this
      exact unclosed ▸ counting
  · exact Or.inr ⟨counting.between guard condition noBlock moves, sameSlots ▸ above⟩

theorem block (anchored : Anchored shared startup events indexer) {slot : ℕ} {isRepaired ok : Bool}
    {accounts : List AccountInfo} (started : indexer.supply.status ≠ .bootstrapping)
    (distinct : (accounts.map AccountInfo.pubkey).Nodup) (aboveStartup : startup.slot < slot)
    (unseen : slot ∉ blockSlots events)
    (ordered : isRepaired = false → ∀ earlier ∈ blockSlots events, earlier < slot)
    (allowed : ∀ account ∈ accounts, (supplyView indexer.supply account.pubkey).zeroPrev = false →
      AccountOk (newest startup events account.pubkey) (indexer.nonCirculating.held account.pubkey)
        (supplyView indexer.supply account.pubkey) (indexer.row account.pubkey) indexer.snapshotFinished slot
        isRepaired ok account) :
    ok = false ∧ (indexer.saveBlock shared slot isRepaired accounts ok).supply.status = .stale ∨
      Anchored shared startup (events ++ [.block slot isRepaired accounts ok])
        (indexer.saveBlock shared slot isRepaired accounts ok) := by
  rcases anchored with ⟨window, _⟩ | ⟨counting, above⟩
  · exact absurd window.booting started
  have unmarked : ∀ key, (supplyView indexer.supply key).zeroPrev = false := by
    intro key
    cases marked : (supplyView indexer.supply key).zeroPrev with
    | false => rfl
    | true => exact absurd (counting.marks key marked) (Set.notMem_empty _)
  refine (counting.block aboveStartup distinct unseen ordered (settled above) fun account member =>
    allowed account member (unmarked _)).imp id fun counting => Or.inr ⟨counting, fun other inBlock => ?_⟩
  rw [blockSlots_block, List.mem_append, List.mem_singleton] at inBlock
  rcases inBlock with before | rfl
  · exact above other before
  · exact aboveStartup

theorem total_eq (anchored : Anchored shared startup events indexer) (live : indexer.supply.status ≠ .bootstrapping) :
    indexer.supply.total = trueSupply startup events % 2 ^ 64 := by
  rcases anchored with ⟨window, _⟩ | ⟨counting, above⟩
  · exact absurd window.booting live
  · exact counting.total_eq (settled above)

end Anchored

end Cloudbreak.Model.Supply
