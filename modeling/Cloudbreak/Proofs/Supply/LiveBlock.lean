import Cloudbreak.Proofs.Supply.Ledger
import Cloudbreak.Proofs.Supply.LateWrite
import Cloudbreak.Proofs.Supply.Rows

/-! # One block of a live indexer

The stake map, the tracker and the rows follow a block account by account, so the per-account steps give
the step of the whole indexer: every source stays exact, and the total moves by the sum of the balance
changes.
-/

namespace Cloudbreak.Model.Supply

open Cloudbreak.ToMathlib
open NonCirculating (Shared Version StakeView stakeView versionAt stakeProgramId)

variable {shared : Shared} {slot : ℕ} {isRepaired : Bool} {accounts : List AccountInfo}

section StakeMap

variable {state : NonCirculating.State}

/-- A live stake map handles exactly the accounts it owned. -/
theorem mem_handled_iff (live : state.status = .live) (fresh : isRepaired = true ∨ state.slot < slot)
    (distinct : (accounts.map AccountInfo.pubkey).Nodup) {account : AccountInfo} (member : account ∈ accounts) :
    decide (account.pubkey ∈ (state.applyBlock shared slot isRepaired accounts).2.handled) =
      (state.held account.pubkey).any Version.stakeOwned := by
  have view := congrArg StakeView.handled
    (NonCirculating.State.applyBlock_view_of_mem shared slot fresh distinct member)
  refine view.trans ?_
  rw [NonCirculating.State.stakeView_default, live]
  cases state.held account.pubkey with
  | none =>
    simp only [StakeView.write]
    split <;> rfl
  | some old => simp [StakeView.write, StakeView.owned]

theorem held_applyBlock_of_mem (fresh : isRepaired = true ∨ state.slot < slot)
    (distinct : (accounts.map AccountInfo.pubkey).Nodup) {account : AccountInfo} (member : account ∈ accounts) :
    (state.applyBlock shared slot isRepaired accounts).1.held account.pubkey =
      heldAfter (decide (account.pubkey ∈ shared.pinned)) (versionAt slot account) (state.held account.pubkey) := by
  have view := congrArg StakeView.held
    (NonCirculating.State.applyBlock_view_of_mem shared slot fresh distinct member)
  refine view.trans ?_
  rw [NonCirculating.State.stakeView_default]
  cases state.held account.pubkey with
  | none =>
    cases dropped : !decide (account.owner = stakeProgramId) && !decide (account.pubkey ∈ shared.pinned) <;>
      simp only [StakeView.write, heldAfter, versionAt, dropped, if_true, Bool.false_eq_true, if_false]
  | some old => rfl

theorem held_applyBlock_of_not_mem (fresh : isRepaired = true ∨ state.slot < slot) {key : Pubkey}
    (absent : key ∉ accounts.map AccountInfo.pubkey) :
    (state.applyBlock shared slot isRepaired accounts).1.held key = state.held key :=
  congrArg StakeView.held (NonCirculating.State.applyBlock_view_of_not_mem shared slot fresh absent)

/-- What the stake map adds for one account it owned. -/
def stakeGain (slot : ℕ) (account : AccountInfo) : Option Version → ℤ
  | none => 0
  | some old => if old.slot < slot ∧ old.stakeOwned = true then account.lamports - old.lamports else 0

private theorem delta_applyBlock (live : state.status = .live) (fresh : isRepaired = true ∨ state.slot < slot)
    (distinct : (accounts.map AccountInfo.pubkey).Nodup) :
    (state.applyBlock shared slot isRepaired accounts).2.delta =
      (accounts.map fun account => stakeGain slot account (state.held account.pubkey)).sum := by
  rw [NonCirculating.State.applyBlock_delta shared slot fresh distinct, live]
  refine congrArg List.sum (List.map_congr_left fun account _ => ?_)
  rw [NonCirculating.State.stakeView_default]
  cases held : state.held account.pubkey with
  | none => rfl
  | some old => simp [StakeView.gain, StakeView.owned, stakeGain]

end StakeMap

/-- A source-exact indexer: the sources of every account, relative to a ledger. -/
def Sources (shared : Shared) (newest delivered : Ledger) (indexer : Indexer) : Prop :=
  ∀ key, Exact (decide (key ∈ shared.pinned)) (newest key) (delivered key) (indexer.nonCirculating.held key)
    (supplyView indexer.supply key) (indexer.row key)

/-- The pending write of an account. -/
def pendingOf (account : AccountInfo) : Pending := ⟨account.pubkey, account.owner, account.lamports⟩

/-- What one account of a block is allowed to do to its sources: the conditions of the two write steps. -/
structure AccountOk (newest : Option Version) (held : Option Version) (view : SupplyView) (row : Option PrevRow)
    (snapshotFinished : Bool) (slot : ℕ) (isRepaired ok : Bool) (account : AccountInfo) : Prop where
  stored : isRepaired = true → ok = true
  consumed : ∀ last, newest = some last → slot < last.slot → view.zeroPrev = false
  known : ∀ last, newest = some last → slot < last.slot → account.owner = stakeProgramId → held ≠ none
  visible : ∀ last, newest = some last → slot < last.slot → last.lamports = 0 → row = none →
    account.lamports = 0 ∨ view.cached.any (fun entry => entry.slot = last.slot) = true
  closeStored : held.any Version.stakeOwned = true → ok = true → account.lamports = 0 →
    snapshotFinished = true ∨ row = none
  failedStays : ok = false → held.any Version.stakeOwned = true → account.owner = stakeProgramId

section AccountStep

variable {pinned : Bool} {newest delivered held : Option Version} {view : SupplyView} {row : Option PrevRow}
  {snapshotFinished ok inGap : Bool} {account : AccountInfo}

/-- The version a write leaves newest. -/
def newestAfter (newest : Option Version) (slot : ℕ) (account : AccountInfo) : Option Version :=
  newer newest (versionAt slot account)

/-- The view an account is left with: both phases, then the pin of a failed block. -/
def viewAfter (slot : ℕ) (isRepaired inGap ok : Bool) (held : Option Version) (row : Option PrevRow)
    (account : AccountInfo) (view : SupplyView) : SupplyView :=
  let handled := held.any Version.stakeOwned
  let noted := view.noteGap inGap slot (pendingOf account)
  ((noted.settle slot isRepaired handled row (pendingOf account)).1).pinIf
    (!ok && !handled && !noted.skips slot isRepaired)

/-- The probe consumes the zero-prev mark. -/
theorem settle_zeroPrev (slot : ℕ) (isRepaired handled : Bool) (row : Option PrevRow) (p : Pending)
    (view : SupplyView) : (view.settle slot isRepaired handled row p).1.zeroPrev = (handled && view.zeroPrev) := by
  have consumed : (view.probed slot isRepaired p).1.zeroPrev = false := by
    unfold SupplyView.probed
    split <;> rfl
  unfold SupplyView.settle
  cases handled with
  | true => rfl
  | false =>
    rcases probed : view.probed slot isRepaired p with ⟨after, _ | _ | _⟩ <;> rw [probed] at consumed
    · exact consumed
    · exact consumed
    · exact consumed

/-- A block only ever consumes zero-prev marks. -/
theorem viewAfter_zeroPrev {slot : ℕ} {isRepaired inGap ok : Bool} {held : Option Version} {row : Option PrevRow}
    {account : AccountInfo} {view : SupplyView}
    (marked : (viewAfter slot isRepaired inGap ok held row account view).zeroPrev = true) : view.zeroPrev = true := by
  have pinned : ∀ (failed : Bool) (view : SupplyView), (view.pinIf failed).zeroPrev = view.zeroPrev := by
    intro failed view
    cases failed <;> rfl
  rw [viewAfter, pinned, settle_zeroPrev, noteGap_zeroPrev] at marked
  exact ((Bool.and_eq_true _ _).mp marked).2

/-- What an account contributes to the block's delta, through the map and through the tracker. -/
def gainOf (slot : ℕ) (isRepaired inGap : Bool) (held : Option Version) (row : Option PrevRow)
    (account : AccountInfo) (view : SupplyView) : ℤ :=
  stakeGain slot account held +
    ((view.noteGap inGap slot (pendingOf account)).settle slot isRepaired (held.any Version.stakeOwned) row
      (pendingOf account)).2

/-- One account of a block: the sources stay exact and the contribution is the change of its balance. -/
theorem Exact.block_step (exact_ : Exact pinned newest delivered held view row)
    (caughtUp : ∀ version, delivered = some version → newest = some version)
    (liveGap : isRepaired = true → inGap = false) (other : ∀ last, newest = some last → last.slot ≠ slot)
    (ordered : isRepaired = false → ∀ last, newest = some last → last.slot < slot)
    (allowed : AccountOk newest held view row snapshotFinished slot isRepaired ok account)
    (isDelivered : ∀ last, newest = some last → slot < last.slot → delivered = some last) :
    Exact pinned (newestAfter newest slot account) (newer delivered (versionAt slot account))
        (heldAfter pinned (versionAt slot account) held) (viewAfter slot isRepaired inGap ok held row account view)
        (if ok then rowAfter snapshotFinished (versionAt slot account) row else row) ∧
      gainOf slot isRepaired inGap held row account view =
        (balance (newestAfter newest slot account) : ℤ) - balance newest := by
  by_cases later : ∀ last, newest = some last → last.slot < slot
  · -- the write is the newest one
    have newestIs : newestAfter newest slot account = some (versionAt slot account) := newer_later later
    have deliveredIs : newer delivered (versionAt slot account) = some (versionAt slot account) :=
      newer_later fun version wasDelivered => later version (caughtUp version wasDelivered)
    have stepped := exact_.write_newest caughtUp later (pendingOf account) inGap
      allowed.closeStored allowed.failedStays
    rw [newestIs, deliveredIs, balance_some]
    cases owned : held.any Version.stakeOwned with
    | true =>
      have viewIs : viewAfter slot isRepaired inGap ok held row account view =
          view.noteGap inGap slot (pendingOf account) := by
        simp [viewAfter, owned, SupplyView.settle, SupplyView.pinIf]
      rw [owned] at stepped
      rw [viewIs]
      refine ⟨stepped, ?_⟩
      obtain ⟨old, isHeld, isOwned⟩ := (Option.any_eq_true _ _).mp owned
      have isNewest : newest = some old := (exact_.known old isHeld).elim id (caughtUp old)
      have older := later old isNewest
      simp [gainOf, isHeld, isOwned, stakeGain, older, SupplyView.settle, isNewest, versionAt]
    | false =>
      have plain := exact_.plain caughtUp owned
      have settled := exact_.settle_newest caughtUp plain later liveGap (pendingOf account)
      have noSkip := exact_.not_skipped later liveGap (pendingOf account)
      have viewIs : viewAfter slot isRepaired inGap ok held row account view =
          (view.wrote inGap slot (pendingOf account)).pinIf (!ok) := by
        simp [viewAfter, owned, settled, noSkip]
      rw [owned] at stepped
      rw [viewIs]
      refine ⟨stepped, ?_⟩
      have silent : stakeGain slot account held = 0 := by
        cases held with
        | none => rfl
        | some old =>
          rw [Option.any_some] at owned
          simp [stakeGain, owned]
      rw [gainOf, silent, owned, settled, zero_add]
      rfl
  · -- a repaired write below the newest version
    simp only [not_forall, not_lt] at later
    obtain ⟨last, isNewest, notBelow⟩ := later
    have older : slot < last.slot := lt_of_le_of_ne notBelow (other last isNewest).symm
    have repaired : isRepaired = true := by
      cases isRepaired with
      | true => rfl
      | false =>
        have := ordered rfl last isNewest
        omega
    have noGap := liveGap repaired
    have wrote := allowed.stored repaired
    subst repaired noGap wrote
    have newestIs : newestAfter newest slot account = newest := by
      rw [newestAfter, isNewest]
      exact newer_older older.le
    have deliveredIs : newer delivered (versionAt slot account) = delivered := by
      rw [isDelivered last isNewest older]
      exact newer_older older.le
    obtain ⟨silent, stepped⟩ := exact_.write_older caughtUp (pendingOf account) snapshotFinished isNewest older
      (allowed.consumed last isNewest older) (allowed.known last isNewest older)
      (allowed.visible last isNewest older)
    have viewIs : viewAfter slot true false true held row account view =
        (view.settle slot true (held.any Version.stakeOwned) row (pendingOf account)).1 := by
      simp [viewAfter, SupplyView.noteGap, SupplyView.pinIf]
    have stakeSilent : stakeGain slot account held = 0 := by
      cases isHeld : held with
      | none => rfl
      | some old =>
        have same : newest = some old := (exact_.known old isHeld).elim id (caughtUp old)
        rw [isNewest, Option.some.injEq] at same
        have stale : ¬old.slot < slot := by rw [← same]; exact Nat.lt_asymm older
        simp [stakeGain, stale]
    rw [newestIs, deliveredIs, viewIs]
    refine ⟨stepped, ?_⟩
    rw [gainOf, stakeSilent, sub_self]
    simpa [SupplyView.noteGap] using silent

end AccountStep

section Block

variable {indexer : Indexer} {ok : Bool}

/-- The pending list of a block has the keys of its accounts. -/
theorem map_pubkey_pending (accounts : List AccountInfo) :
    (SupplyState.buildBlockPending accounts).map Pending.pubkey = accounts.map AccountInfo.pubkey := by
  rw [SupplyState.buildBlockPending, List.map_map]
  rfl

theorem mem_pending {accounts : List AccountInfo} {p : Pending} :
    p ∈ SupplyState.buildBlockPending accounts ↔ ∃ account ∈ accounts, pendingOf account = p :=
  List.mem_map

/-- The tracker after a block was probed, resolved and finished, unless the pins overflowed. -/
structure Finished (indexer : Indexer) (slot : ℕ) (isRepaired : Bool) (accounts : List AccountInfo) (ok : Bool)
    (after : SupplyState) : Prop where
  statusIs : after.status = indexer.supply.status
  startupIs : after.startupSlot = indexer.supply.startupSlot
  slotIs : after.slot = max indexer.supply.slot slot
  totalIs : after.total = addDelta indexer.supply.total (accounts.map fun account =>
    gainOf slot isRepaired (!isRepaired && decide (indexer.supply.status = .gapFilling))
      (indexer.nonCirculating.held account.pubkey) (indexer.row account.pubkey) account
      (supplyView indexer.supply account.pubkey)).sum
  written : ∀ account ∈ accounts, supplyView after account.pubkey =
    viewAfter slot isRepaired (!isRepaired && decide (indexer.supply.status = .gapFilling)) ok
      (indexer.nonCirculating.held account.pubkey) (indexer.row account.pubkey) account
      (supplyView indexer.supply account.pubkey)
  unwritten : ∀ key, key ∉ accounts.map AccountInfo.pubkey → supplyView after key = supplyView indexer.supply key

/-- A commit above the startup slot adds the delta, whether or not it also publishes a row. -/
theorem commitBlock_eq {state : SupplyState} (running : state.status = .live ∨ state.status = .gapFilling)
    {slot : ℕ} (above : state.startupSlot < slot) (delta : ℤ) :
    (state.commitBlock slot delta).1 =
      { state with slot := max state.slot slot, total := addDelta state.total delta } := by
  unfold SupplyState.commitBlock
  dsimp only
  rw [if_neg (Nat.not_le.mpr above)]
  rcases running with live | gap
  · simp only [live]
  · simp only [gap]

/-- Pinning the touched accounts is `pinIf` on each of them. -/
theorem supplyView_pin {state : SupplyState} {touched : List Pubkey} {cache : HotAccounts}
    (accepted : state.cache.pinFailed touched = some cache) (key : Pubkey) :
    supplyView { state with cache } key = (supplyView state key).pinIf (decide (key ∈ touched)) := by
  simp only [supplyView, HotAccounts.lookup_pinFailed accepted, SupplyView.pinIf, decide_eq_true_eq]
  split <;> rfl

private theorem SupplyView.pinIf_false (view : SupplyView) : view.pinIf false = view := rfl

section Phases

variable (mapLive : indexer.nonCirculating.status = .live)
  (freshMap : isRepaired = true ∨ indexer.nonCirculating.slot < slot)
  (distinct : (accounts.map AccountInfo.pubkey).Nodup)
  (reads : ∀ account ∈ accounts,
    indexer.fetchPrevBalances (if isRepaired then none else some slot) account.pubkey = indexer.row account.pubkey)
include mapLive freshMap distinct

include reads in
private theorem settled_eq {account : AccountInfo} (member : account ∈ accounts) :
    SupplyState.settled slot isRepaired (indexer.nonCirculating.applyBlock shared slot isRepaired accounts).2
        indexer.supply (indexer.fetchPrevBalances (if isRepaired then none else some slot)) (pendingOf account) =
      ((supplyView indexer.supply account.pubkey).noteGap (!isRepaired && decide (indexer.supply.status = .gapFilling))
        slot (pendingOf account)).settle slot isRepaired
          ((indexer.nonCirculating.held account.pubkey).any Version.stakeOwned) (indexer.row account.pubkey)
          (pendingOf account) := by
  rw [SupplyState.settled, ← mem_handled_iff mapLive freshMap distinct member, ← reads account member]
  rfl

variable {after : SupplyState} {delta : ℤ} {touched : List Pubkey}
  (spec : SupplyState.BlockSpec slot isRepaired (indexer.nonCirculating.applyBlock shared slot isRepaired accounts).2
    indexer.supply (indexer.fetchPrevBalances (if isRepaired then none else some slot))
    (SupplyState.buildBlockPending accounts) after delta touched)
include spec

include reads in
/-- The delta of a block is what its accounts gain, through the map and through the tracker. -/
private theorem delta_eq : delta = (accounts.map fun account =>
    gainOf slot isRepaired (!isRepaired && decide (indexer.supply.status = .gapFilling))
      (indexer.nonCirculating.held account.pubkey) (indexer.row account.pubkey) account
      (supplyView indexer.supply account.pubkey)).sum := by
  rw [spec.deltaSum, delta_applyBlock mapLive freshMap distinct, SupplyState.buildBlockPending, List.map_map,
    ← List.sum_map_add]
  refine congrArg List.sum (List.map_congr_left fun account member => ?_)
  exact congrArg (fun settled : SupplyView × ℤ => stakeGain slot account _ + settled.2)
    (settled_eq mapLive freshMap distinct reads member)

/-- The tracker touches the accounts that the map does not own and no newer write skips. -/
private theorem touched_eq {account : AccountInfo} (member : account ∈ accounts) :
    decide (account.pubkey ∈ touched) =
      (!(indexer.nonCirculating.held account.pubkey).any Version.stakeOwned &&
        !((supplyView indexer.supply account.pubkey).noteGap
          (!isRepaired && decide (indexer.supply.status = .gapFilling)) slot (pendingOf account)).skips slot isRepaired) := by
  rw [← mem_handled_iff mapLive freshMap distinct member]
  apply Bool.eq_iff_iff.mpr
  rw [decide_eq_true_eq, spec.touchedIff]
  simp only [Bool.and_eq_true, Bool.not_eq_true', decide_eq_false_iff_not]
  constructor
  · rintro ⟨p, inside, same, touches⟩
    obtain ⟨other, otherMember, rfl⟩ := mem_pending.mp inside
    rw [← List.inj_on_of_nodup_map distinct otherMember member same]
    exact touches
  · exact fun touches => ⟨pendingOf account, mem_pending.mpr ⟨account, member, rfl⟩, rfl, touches⟩

omit mapLive freshMap distinct in
private theorem not_touched {key : Pubkey} (absent : key ∉ accounts.map AccountInfo.pubkey) : key ∉ touched := by
  intro inside
  obtain ⟨p, isPending, rfl, _⟩ := (spec.touchedIff key).mp inside
  rw [← map_pubkey_pending] at absent
  exact absent (List.mem_map_of_mem isPending)

end Phases

variable (indexer ok) in
/-- A block that is not a replay goes through both phases and is committed, or overflows the pins when its
writes failed. -/
theorem finishBlock_spec (running : indexer.supply.status = .live ∨ indexer.supply.status = .gapFilling)
    (mapLive : indexer.nonCirculating.status = .live)
    (freshMap : isRepaired = true ∨ indexer.nonCirculating.slot < slot)
    (fresh : isRepaired = true ∨ indexer.supply.slot < slot) (counted : indexer.supply.startupSlot < slot)
    (distinct : (accounts.map AccountInfo.pubkey).Nodup)
    (reads : ∀ account ∈ accounts,
      indexer.fetchPrevBalances (if isRepaired then none else some slot) account.pubkey = indexer.row account.pubkey) :
    ok = false ∧ (indexer.saveBlock shared slot isRepaired accounts ok).supply.status = .stale ∨
      Finished indexer slot isRepaired accounts ok
        (indexer.saveBlock shared slot isRepaired accounts ok).supply := by
  obtain ⟨after, delta, touched, ran, spec⟩ := SupplyState.applyBlock_spec slot isRepaired
    (indexer.nonCirculating.applyBlock shared slot isRepaired accounts).2 running fresh
    (show ((SupplyState.buildBlockPending accounts).map Pending.pubkey).Nodup by rwa [map_pubkey_pending])
    (indexer.fetchPrevBalances (if isRepaired then none else some slot))
  have supplyIs : (indexer.saveBlock shared slot isRepaired accounts ok).supply =
      (after.finishBlock slot (.delta delta touched) ok).1 := by
    simp only [Indexer.saveBlock, ran]
  have settledIs := fun account member =>
    @settled_eq shared slot isRepaired accounts indexer mapLive freshMap distinct reads account member
  have deltaIs := delta_eq mapLive freshMap distinct reads spec
  have frame := spec.frame
  simp only [SupplyState.frame, Frame.mk.injEq] at frame
  obtain ⟨status, _, total, sameSlot, startupSlot⟩ := frame
  have above : after.startupSlot < slot := startupSlot ▸ counted
  rw [supplyIs]
  cases ok with
  | true =>
    have resultIs : (after.finishBlock slot (.delta delta touched) true).1 =
        { after with slot := max after.slot slot, total := addDelta after.total delta } :=
      commitBlock_eq (status ▸ running) above delta
    rw [resultIs]
    refine Or.inr ⟨status, startupSlot, by rw [← sameSlot], by rw [← total, ← deltaIs], fun account member => ?_,
      fun key absent => ?_⟩
    · have written := spec.written (pendingOf account) (mem_pending.mpr ⟨account, member, rfl⟩)
      rw [settledIs account member] at written
      exact written
    · exact spec.unwritten key (by rw [map_pubkey_pending]; exact absent)
  | false =>
    cases accepted : after.cache.pinFailed touched with
    | none =>
      refine Or.inl ⟨rfl, ?_⟩
      have stale : after.markStale.1.status = .stale := by
        unfold SupplyState.markStale
        rw [status, if_pos running]
      simpa [SupplyState.finishBlock, accepted] using stale
    | some cache =>
      have resultIs : (after.finishBlock slot (.delta delta touched) false).1 =
          { after with
            cache := cache
            slot := max after.slot slot
            total := addDelta after.total delta } := by
        simp only [SupplyState.finishBlock, Bool.false_eq_true, if_false, accepted]
        exact @commitBlock_eq { after with cache } (status ▸ running) slot above delta
      have views : ∀ key, supplyView
          { after with
            cache := cache
            slot := max after.slot slot
            total := addDelta after.total delta } key =
          (supplyView after key).pinIf (decide (key ∈ touched)) :=
        supplyView_pin accepted
      rw [resultIs]
      refine Or.inr ⟨status, startupSlot, by rw [← sameSlot], by rw [← total, ← deltaIs],
        fun account member => ?_, fun key absent => ?_⟩
      · have written := spec.written (pendingOf account) (mem_pending.mpr ⟨account, member, rfl⟩)
        rw [settledIs account member] at written
        rw [views, touched_eq mapLive freshMap distinct spec member, show supplyView after account.pubkey = _ from written]
        rfl
      · rw [views, decide_eq_false (not_touched spec absent), SupplyView.pinIf_false]
        exact spec.unwritten key (by rw [map_pubkey_pending]; exact absent)

end Block

end Cloudbreak.Model.Supply
