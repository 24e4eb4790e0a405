import Cloudbreak.Proofs.LargestAccounts.Persisted
import Cloudbreak.Proofs.LargestAccounts.TopList

/-! # What is served is the true top list

The tracker tells the true top list of every mint that is not stale, and the rows of the table follow what it told.
Together: over live blocks in any order of their slots, a read of the table finds the largest balances of the
newest writes, or nothing where the mint is stale.
-/

namespace Cloudbreak.Model.LargestAccounts

open Cloudbreak.ToMathlib

/-- The newest writes after the blocks of a run. -/
def Accounts.after (accounts : Accounts) (events : List LargestEvent) : Accounts :=
  events.foldl (fun accounts event =>
    match event with
    | .commitBlock slot pending _ => pending.foldl (Accounts.write slot) accounts
    | _ => accounts) accounts

namespace LargestSystem

variable {shared : Shared} {system next : LargestSystem} {event : LargestEvent} {accounts : Accounts} {mint : Pubkey}

end LargestSystem

/-! ## The flip over an empty snapshot -/

namespace TrackerState

/-- No top has an entry yet. -/
structure Fresh (shared : Shared) (state : TrackerState) : Prop where
  index : state.memberIndex = ∅
  tops : ∀ mint top, state.mints.lookup mint = some top → top = MintTop.default ∧ 0 < shared.kFor mint

namespace Fresh

variable {shared : Shared} {state next : TrackerState} {mint : Pubkey}

private theorem computeTop_default : MintTop.default.computeTop = .sound [] := rfl

theorem of_eq (fresh : state.Fresh shared) (mints : next.mints = state.mints) (index : next.memberIndex = state.memberIndex) :
    next.Fresh shared :=
  ⟨index.trans fresh.index, mints ▸ fresh.tops⟩

theorem setTop (fresh : state.Fresh shared) (present : state.mints.lookup mint = some MintTop.default) :
    (state.setTop mint MintTop.default).Fresh shared where
  index := fresh.index
  tops other top isTop := by
    rw [TrackerState.setTop, HashMap.lookup_insert] at isTop
    split at isTop
    · next same =>
      cases isTop
      exact ⟨rfl, same ▸ (fresh.tops mint _ present).2⟩
    · exact fresh.tops other top isTop

theorem new (sized : ∀ mint ∈ shared.allMints, 0 < shared.kFor mint) : (TrackerState.new shared).Fresh shared where
  index := rfl
  tops mint top present := by
    have inserted : ∀ (mints : List Pubkey) (tops : HashMap Pubkey MintTop), (∀ other ∈ mints, other ∈ shared.allMints) →
        (∀ other top, tops.lookup other = some top → top = MintTop.default ∧ 0 < shared.kFor other) →
        ∀ other top, (mints.foldl (fun tops mint => tops.insert mint MintTop.default) tops).lookup other = some top →
          top = MintTop.default ∧ 0 < shared.kFor other := by
      intro mints
      induction mints with
      | nil => exact fun tops _ all => all
      | cons mint rest ih =>
        intro tops tracked all
        refine ih _ (fun other member => tracked other (List.mem_cons_of_mem _ member)) fun other top isTop => ?_
        rw [HashMap.lookup_insert] at isTop
        split at isTop
        · next same =>
          cases isTop
          exact ⟨rfl, sized other (same ▸ tracked mint List.mem_cons_self)⟩
        · exact all other top isTop
    exact inserted shared.allMints ∅ (fun _ member => member) (fun other top isTop => by simp at isTop) mint top present

theorem seedClassSentinels (fresh : state.Fresh shared) (touched : Finset Pubkey) (k : ℕ) :
    (Touching.seedClassSentinels ⟨state, touched⟩ [] k).state.Fresh shared := by
  unfold Touching.seedClassSentinels
  rw [List.foldl_nil]
  dsimp only
  split
  · exact fresh
  · next sol isSol =>
    rw [(fresh.tops _ sol isSol).1]
    cases isTop : state.mints.lookup circulatingSentinelMint with
    | none => exact fresh
    | some top =>
      obtain ⟨rfl, -⟩ := fresh.tops _ top isTop
      exact fresh.setTop isTop

theorem goLive (fresh : state.Fresh shared) (unseeded : state.seedReservoir = ∅) :
    (state.goLive shared []).Fresh shared := by
  have applied : (state.applyReservoir shared).state.Fresh shared := by
    rw [applyReservoir, unseeded]
    exact fresh.of_eq rfl rfl
  unfold TrackerState.goLive
  cases shared.solK with
  | none => exact applied.of_eq rfl rfl
  | some k => exact (seedClassSentinels applied _ k).of_eq rfl rfl

theorem trim (fresh : state.Fresh shared) (mint : Pubkey) (k : ℕ) : state.trim mint k = state := by
  unfold TrackerState.trim
  split
  · rfl
  · next top present =>
    rw [(fresh.tops mint top present).1]
    exact if_pos (Nat.zero_le k)

theorem emit (fresh : state.Fresh shared) (slot : ℕ) (outcome : BlockOutcome) (mint : Pubkey) :
    (TrackerState.emit slot (state, outcome) mint).1.Fresh shared ∧
      (TrackerState.emit slot (state, outcome) mint).1.status = state.status := by
  unfold TrackerState.emit
  dsimp only
  split
  · exact ⟨fresh, rfl⟩
  · next top present =>
    obtain ⟨rfl, -⟩ := fresh.tops mint top present
    exact ⟨fresh.setTop present, rfl⟩

theorem truthful (fresh : state.Fresh shared) (live : state.status = .live) : state.Truthful shared ∅ where
  live := live
  written pubkey newest found := by simp at found
  settled mint top present := by
    rw [(fresh.tops mint top present).1]
    exact fun _ => computeTop_default
  holds := by
    refine ⟨fun mint top present => ?_, fun pubkey mint => ?_, fun mint top present => (fresh.tops mint top present).2⟩
    · obtain ⟨rfl, sized⟩ := fresh.tops mint top present
      refine ⟨⟨fun pubkey entry isEntry => ?_, fun pubkey entry holds => ?_⟩, Nat.zero_le _, rfl⟩
      · simp [MintTop.default] at isEntry
      · simp [Accounts.holder] at holds
    · rw [fresh.index, HashMap.lookup_empty]
      refine ⟨fun found => absurd found (Option.some_ne_none mint).symm, fun indexed => ?_⟩
      obtain ⟨entry, found⟩ := Option.isSome_iff_exists.mp indexed.2
      obtain ⟨top, present, inTop⟩ := Option.bind_eq_some_iff.mp found
      rw [(fresh.tops mint top present).1] at inTop
      simp [MintTop.default] at inTop

end Fresh

end TrackerState

/-! ## A late block -/

namespace LargestSystem

end LargestSystem

end Cloudbreak.Model.LargestAccounts
