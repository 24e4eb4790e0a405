import Cloudbreak.Model.Supply.Indexer
import Cloudbreak.Proofs.Supply.CacheRuns
import Mathlib.Logic.Relation

/-! # The cache under the tracker

The tracker changes its cache by the calls of the cache alone. A failed block pins a missed account twice, once for
the probe and once for the resolved miss, so that the pinned counter runs ahead of the pinned entries, but never
behind them. A sweep finds its cutoff as long as the counter does not exceed the entries.
-/

namespace Cloudbreak.Model.Supply

open Cloudbreak.ToMathlib
open NonCirculating (Shared StakeBlock)
open Indexer (Event)

namespace HotAccounts

/-- Some calls lead from one cache to another. -/
def Calls : HotAccounts → HotAccounts → Prop :=
  Relation.ReflTransGen fun cache next => ∃ op : CacheOp, op.apply cache = some next

theorem Calls.probe (cache : HotAccounts) (pubkey : Pubkey) (lamports slot : ℕ) (owner : Pubkey) (zeroPrev : Bool) :
    cache.Calls (cache.probe pubkey lamports slot owner zeroPrev).1 :=
  .single ⟨.probe pubkey lamports slot owner zeroPrev, rfl⟩

theorem Calls.applyMiss (cache : HotAccounts) (pubkey : Pubkey) (lamports slot : ℕ) (owner : Pubkey)
    (prev : Option PrevRow) : cache.Calls (cache.applyMiss pubkey lamports slot owner prev).1 :=
  .single ⟨.applyMiss pubkey lamports slot owner prev, rfl⟩

theorem Calls.foldl {σ α : Type} {cacheOf : σ → HotAccounts} {step : σ → α → σ}
    (each : ∀ state item, (cacheOf state).Calls (cacheOf (step state item))) (items : List α) (state : σ) :
    (cacheOf state).Calls (cacheOf (items.foldl step state)) := by
  induction items generalizing state with
  | nil => exact .refl
  | cons item rest ih => exact (each state item).trans (ih (step state item))

/-- The capacities are as configured, and the counter covers the pinned entries. -/
structure PinsCovered (cap failPinCap : ℕ) (cache : HotAccounts) : Prop where
  cap : cache.cap = cap
  failPinCap : cache.failPinCap = failPinCap
  counted : ∃ excess, cache.Counted excess

variable {cap failPinCap : ℕ} {cache next : HotAccounts}

theorem PinsCovered.apply (covered : PinsCovered cap failPinCap cache) {op : CacheOp}
    (moves : op.apply cache = some next) : PinsCovered cap failPinCap next := by
  obtain ⟨sameCap, samePinCap⟩ := caps_apply moves
  obtain ⟨excess, counted⟩ := covered.counted
  refine ⟨sameCap.trans covered.cap, samePinCap.trans covered.failPinCap, ?_⟩
  rcases apply_cases moves with
    ⟨write, -, rfl⟩ | ⟨-, rfl⟩ | ⟨slot, evicted, rfl, ran⟩ | ⟨pubkeys, rfl, accepted⟩
  · exact ⟨excess, counted_put counted write⟩
  · exact ⟨excess, counted⟩
  · exact ⟨excess, counted_sweep counted ran⟩
  · exact counted_pinFailed_repeated counted accepted

theorem PinsCovered.calls (covered : PinsCovered cap failPinCap cache) (calls : cache.Calls next) :
    PinsCovered cap failPinCap next := by
  induction calls with
  | refl => exact covered
  | tail _ call ih =>
    obtain ⟨op, moves⟩ := call
    exact ih.apply moves

/-- A sweep subtracts no more pins than there are entries, and keeps some of them. -/
def SweepFits (cache : HotAccounts) : Prop := 1 ≤ cache.cap ∧ cache.pinnedCount ≤ cache.map.entries.length

instance : Decidable cache.SweepFits := inferInstanceAs (Decidable (_ ∧ _))

theorem PinsCovered.sweep_returns (covered : PinsCovered cap failPinCap cache) (small : failPinCap < 2 ^ 64)
    (fits : cache.SweepFits) (slot : ℕ) : ∃ swept evicted, cache.sweep slot = some (swept, evicted) := by
  obtain ⟨excess, counted⟩ := covered.counted
  exact HotAccounts.sweep_returns counted (covered.failPinCap ▸ small) fits.1 fits.2 slot

end HotAccounts

open HotAccounts (Calls PinsCovered)

/-! ## The tracker's calls -/

namespace SupplyState

variable {state : SupplyState} {slot : ℕ}

private theorem calls_touch (slot : ℕ) (state : SupplyState) (p : Pending) :
    state.cache.Calls (touch slot state p).cache := by
  unfold touch
  dsimp only
  split
  · exact .probe ..
  · exact .probe ..

private theorem calls_probeOne (slot : ℕ) (isRepaired : Bool) (stake : StakeBlock) (probed : Probed) (p : Pending) :
    probed.state.cache.Calls (probeOne slot isRepaired stake probed p).state.cache := by
  unfold probeOne
  split
  · exact .refl
  · dsimp only
    split
    · exact .refl
    · have calls := Calls.probe probed.state.cache p.pubkey p.lamports slot p.owner
        (decide (p.pubkey ∈ probed.state.startupZeroPrev))
      split
      · next cache delta found =>
        rw [found] at calls
        exact calls
      · next cache found =>
        rw [found] at calls
        exact calls

private theorem calls_resolveMiss (slot : ℕ) (prev : Pubkey → Option PrevRow) (probed : Probed) (p : Pending) :
    probed.state.cache.Calls (resolveMiss slot prev probed p).state.cache := .applyMiss ..

private theorem calls_probeBlock (state : SupplyState) (slot : ℕ) (isRepaired : Bool) (pending : List Pending)
    (stake : StakeBlock) : state.cache.Calls (state.probeBlock slot isRepaired pending stake).1.cache := by
  have probes : ∀ gapCloses, state.cache.Calls (pending.foldl (probeOne slot isRepaired stake)
      ⟨{ state with gapCloses }, stake.delta, [], []⟩).state.cache := fun gapCloses =>
    @Calls.foldl Probed Pending (fun probed => probed.state.cache) _ (calls_probeOne slot isRepaired stake) pending
      ⟨{ state with gapCloses }, stake.delta, [], []⟩
  unfold probeBlock
  split
  · exact Calls.foldl (calls_touch slot) pending state
  · exact .refl
  all_goals
    split
    · exact .refl
    · exact probes _

private theorem cache_markStale (state : SupplyState) : state.markStale.1.cache = state.cache := by
  unfold markStale
  split <;> rfl

private theorem calls_applyBlock (state : SupplyState) (slot : ℕ) (isRepaired : Bool) (pending : List Pending)
    (stake : StakeBlock) (read : List Pubkey → Option (Pubkey → Option PrevRow)) :
    state.cache.Calls (state.applyBlock slot isRepaired pending stake read).1.cache := by
  have probes := calls_probeBlock state slot isRepaired pending stake
  unfold applyBlock
  split
  · next probed delta touched misses found =>
    rw [found] at probes
    split
    · exact probes
    · split
      · rw [cache_markStale]
        exact probes
      · next prev _ =>
        exact probes.trans (@Calls.foldl Probed Pending (fun probed => probed.state.cache) _ (calls_resolveMiss slot prev) misses
          ⟨probed, delta, touched, []⟩)
  · next found =>
    rw [found] at probes
    exact probes

private theorem cache_commitBlock (state : SupplyState) (slot : ℕ) (blockDelta : ℤ) :
    (state.commitBlock slot blockDelta).1.cache = state.cache := by
  unfold commitBlock
  dsimp only
  split
  · rfl
  · split <;> rfl

private theorem calls_finishBlock (state : SupplyState) (slot : ℕ) (outcome : BlockOutcome) (blockWritesOk : Bool) :
    state.cache.Calls (state.finishBlock slot outcome blockWritesOk).1.cache := by
  cases outcome with
  | idle => exact .refl
  | readFailed => exact .refl
  | bootstrapping =>
    rw [finishBlock]
    dsimp only
    split
    · exact .refl
    · unfold markBootstrapFailed
      split <;> exact .refl
  | delta delta touched =>
    rw [finishBlock]
    split
    · rw [cache_commitBlock]
      exact .refl
    · cases accepted : state.cache.pinFailed touched with
      | none =>
        dsimp only
        rw [cache_markStale]
        exact .refl
      | some pinned =>
        dsimp only
        rw [cache_commitBlock]
        exact .single ⟨.pinFailed touched, by rw [CacheOp.apply, accepted, Option.getD_some]⟩

private theorem calls_sweepIfDue {swept : SupplyState} (ran : state.sweepIfDue slot = some swept) :
    state.cache.Calls swept.cache := by
  unfold sweepIfDue at ran
  split at ran
  · obtain ⟨result, found, same⟩ := Option.bind_eq_some_iff.mp ran
    cases same
    exact .single ⟨.sweep slot, congrArg (Option.map Prod.fst) found⟩
  · cases ran
    exact .refl

end SupplyState

variable {shared : Shared} {indexer next : Indexer} {event : Event} {cap failPinCap : ℕ}

private theorem Indexer.calls_step (moves : indexer.step shared event = some next) :
    indexer.supply.cache.Calls next.supply.cache := by
  cases event with
  | seed slot account => cases moves; exact .refl
  | block slot isRepaired accounts ok =>
    cases moves
    refine (SupplyState.calls_applyBlock indexer.supply slot isRepaired (SupplyState.buildBlockPending accounts)
      (indexer.nonCirculating.applyBlock shared slot isRepaired accounts).2 fun _ =>
        some (indexer.fetchPrevBalances (if isRepaired then none else some slot))).trans ?_
    exact SupplyState.calls_finishBlock _ slot _ ok
  | finishNonCirculating =>
    obtain ⟨_, _, same⟩ := Option.bind_eq_some_iff.mp moves
    cases same
    exact .refl
  | finishSupply =>
    obtain ⟨finished, ran, same⟩ := Option.bind_eq_some_iff.mp moves
    cases same
    unfold SupplyState.finishBootstrap at ran
    split at ran
    · contradiction
    · obtain ⟨window, _, same⟩ := Option.bind_eq_some_iff.mp ran
      cases same
      exact .refl
  | finishSnapshot => cases moves; exact .refl
  | markGap =>
    cases moves
    unfold SupplyState.markGap
    split <;> exact .refl
  | finishGap =>
    cases moves
    unfold SupplyState.finishGap
    split <;> exact .refl
  | sweep slot =>
    obtain ⟨swept, ran, same⟩ := Option.bind_eq_some_iff.mp moves
    cases same
    exact SupplyState.calls_sweepIfDue ran

private theorem HotAccounts.pinsCovered_withCapacity (cap failPinCap : ℕ) :
    PinsCovered cap failPinCap (.withCapacity cap failPinCap) := ⟨rfl, rfl, 0, rfl, Nat.zero_le _⟩

/-- The counter covers the pinned entries in every run. -/
theorem pinsCovered_run {slot capitalization : ℕ} {allowed : List Event → Indexer → Event → Prop} {events : List Event}
    (run : Run (.start shared cap failPinCap slot capitalization) (Indexer.step shared) allowed events indexer) :
    PinsCovered cap failPinCap indexer.supply.cache := by
  refine run.stateInvariant ?_ fun _ _ _ _ covered _ moves => covered.calls (Indexer.calls_step moves)
  unfold Indexer.start
  dsimp only
  unfold SupplyState.setStartupTotal
  split <;> exact HotAccounts.pinsCovered_withCapacity cap failPinCap

/-- A sweep that fits does not panic. -/
theorem Indexer.sweep_isSome (covered : PinsCovered cap failPinCap indexer.supply.cache) (small : failPinCap < 2 ^ 64)
    (fits : indexer.supply.cache.SweepFits) (slot : ℕ) : (indexer.step shared (.sweep slot)).isSome = true := by
  obtain ⟨swept, evicted, ran⟩ := covered.sweep_returns small fits slot
  rw [Indexer.step, SupplyState.sweepIfDue]
  split
  · rw [ran]
    rfl
  · rfl

end Cloudbreak.Model.Supply
