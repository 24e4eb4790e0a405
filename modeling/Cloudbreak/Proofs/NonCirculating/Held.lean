import Cloudbreak.ToMathlib.KeyedFold
import Cloudbreak.Model.NonCirculating.Tracker

/-! # What the stake map holds for one account

The supply tracker uses three facts of a stake-map entry: its slot, its balance and whether the stake
program owns it. Placements and expiries change flags only, so they leave these facts alone, and a
block's effect on them is one local step for each account it writes.
-/

namespace Cloudbreak.Model.NonCirculating

open Cloudbreak.ToMathlib

/-- One written state of an account, as far as balances go. -/
@[ext] structure Version where
  slot : ℕ
  lamports : ℕ
  stakeOwned : Bool
deriving DecidableEq, Repr

def StakeEntry.version (entry : StakeEntry) : Version := ⟨entry.slot, entry.lamports, entry.stakeOwned⟩

/-- The version an account write at `slot` leaves. -/
def versionAt (slot : ℕ) (account : AccountInfo) : Version :=
  ⟨slot, account.lamports, decide (account.owner = stakeProgramId)⟩

def State.held (state : State) (key : Pubkey) : Option Version :=
  (state.accounts.lookup key).map StakeEntry.version

@[simp] theorem version_entryFromAccount (shared : Shared) (account : AccountInfo) (pinned : Bool)
    (slot : ℕ) :
    (shared.entryFromAccount (decide (account.owner = stakeProgramId)) pinned account.lamports account.data
      slot).version = versionAt slot account := by
  unfold Shared.entryFromAccount versionAt
  split
  · next other => simp_all [StakeEntry.version]
  · next owned => split <;> simp_all [StakeEntry.version]

@[simp] theorem version_place (membership : Membership) (key : Pubkey) (entry : StakeEntry) :
    (membership.place key entry).2.1.version = entry.version := by
  unfold Membership.place
  split <;> rfl

@[simp] theorem noteFlip_delta (was now : Bool) (block : StakeBlock) :
    (noteFlip was now block).delta = block.delta := by
  unfold noteFlip
  split <;> rfl

@[simp] theorem noteFlip_handled (was now : Bool) (block : StakeBlock) :
    (noteFlip was now block).handled = block.handled := by
  unfold noteFlip
  split <;> rfl

namespace Expiring

/-- A state whose balances, delta and handled set are those of another one. -/
structure SameBalances (before after : Expiring) : Prop where
  held : ∀ key, (after.accounts.lookup key).map StakeEntry.version =
    (before.accounts.lookup key).map StakeEntry.version
  delta : after.block.delta = before.block.delta
  handled : after.block.handled = before.block.handled

theorem SameBalances.refl (state : Expiring) : SameBalances state state := ⟨fun _ => rfl, rfl, rfl⟩

theorem SameBalances.trans {first second third : Expiring} (left : SameBalances first second)
    (right : SameBalances second third) : SameBalances first third :=
  ⟨fun key => (right.held key).trans (left.held key), right.delta.trans left.delta,
    right.handled.trans left.handled⟩

/-- Rewriting an entry's flags keeps every balance. -/
theorem held_insert_flags {accounts : HashMap Pubkey StakeEntry} {pubkey : Pubkey}
    {old new : StakeEntry} (present : accounts.lookup pubkey = some old) (same : new.version = old.version)
    (key : Pubkey) :
    ((accounts.insert pubkey new).lookup key).map StakeEntry.version =
      (accounts.lookup key).map StakeEntry.version := by
  rw [HashMap.lookup_insert]
  split
  · next equal => rw [equal, present, Option.map_some, Option.map_some, same]
  · rfl

private theorem sameBalances_leave {state : Expiring} {pubkey : Pubkey} {old new : StakeEntry}
    (present : state.accounts.lookup pubkey = some old) (same : new.version = old.version) :
    SameBalances state (state.leave pubkey new) :=
  ⟨held_insert_flags present same, by simp [leave], by simp [leave]⟩

private theorem sameBalances_popEpoch (clock : BlockClock) (state : Expiring) (pubkey : Pubkey) :
    SameBalances state (state.popEpoch clock pubkey) := by
  unfold popEpoch
  split
  · exact .refl state
  · next entry present =>
    dsimp only
    split
    · exact ⟨held_insert_flags present rfl, rfl, rfl⟩
    · exact sameBalances_leave present rfl

private theorem sameBalances_popTimestamp (state : Expiring) (pubkey : Pubkey) :
    SameBalances state (state.popTimestamp pubkey) := by
  unfold popTimestamp
  split
  · exact .refl state
  · next entry present => exact sameBalances_leave present rfl

private theorem sameBalances_expireEpochs (clock : BlockClock) (state : Expiring) (set : ExpirySet ℕ) :
    SameBalances state (state.expireEpochs clock set) := by
  induction set generalizing state with
  | nil => exact ⟨fun _ => rfl, rfl, rfl⟩
  | cons head rest ih =>
    unfold expireEpochs
    split
    · exact ⟨fun _ => rfl, rfl, rfl⟩
    · exact (sameBalances_popEpoch clock state head.2).trans (ih _)

private theorem sameBalances_expireTimestamps (clock : BlockClock) (state : Expiring) (set : ExpirySet ℤ) :
    SameBalances state (state.expireTimestamps clock set) := by
  induction set generalizing state with
  | nil => exact ⟨fun _ => rfl, rfl, rfl⟩
  | cons head rest ih =>
    unfold expireTimestamps
    split
    · exact ⟨fun _ => rfl, rfl, rfl⟩
    · exact (sameBalances_popTimestamp state head.2).trans (ih _)

private theorem sameBalances_expire (clock : BlockClock) (state : Expiring) :
    SameBalances state (state.expire clock) :=
  (sameBalances_expireEpochs clock state _).trans (sameBalances_expireTimestamps clock _ _)

end Expiring

/-- What a block's accounts see of one key: its entry, its seed shadow, and whether it was handled. -/
structure StakeView where
  held : Option Version
  shadow : Option ℕ
  handled : Bool

def stakeView (current : State × StakeBlock) (key : Pubkey) : StakeView :=
  ⟨current.1.held key, current.1.seedShadow.lookup key, decide (key ∈ current.2.handled)⟩

/-- The key is owned by the stake map, so its previous balance comes from there. -/
def StakeView.owned (live : Bool) (view : StakeView) : Bool := live && view.held.any Version.stakeOwned

/-- One write on the view of its key. -/
def StakeView.write (live pinned : Bool) (slot : ℕ) (account : AccountInfo) (view : StakeView) : StakeView :=
  match view.held with
  | none =>
    if !decide (account.owner = stakeProgramId) && !pinned then
      { view with shadow := if live then view.shadow else some (view.shadow.elim slot fun seen => max seen slot) }
    else { view with held := some (versionAt slot account) }
  | some old =>
    { view with
      held := some (if old.slot ≥ slot then old else versionAt slot account)
      handled := view.handled || view.owned live }

/-- The lamports a write adds through the stake map. -/
def StakeView.gain (live : Bool) (slot : ℕ) (account : AccountInfo) (view : StakeView) : ℤ :=
  match view.held with
  | none => 0
  | some old => if old.slot < slot ∧ view.owned live then account.lamports - old.lamports else 0

namespace State

variable (shared : Shared) (slot : ℕ)

private theorem putEntry_status (current : State × StakeBlock) (pubkey : Pubkey) (before : Option StakeEntry)
    (entry : StakeEntry) : (putEntry current pubkey before entry).1.status = current.1.status := by
  unfold putEntry
  dsimp only
  split <;> rfl

theorem putEntry_seedShadow (current : State × StakeBlock) (pubkey : Pubkey) (before : Option StakeEntry)
    (entry : StakeEntry) : (putEntry current pubkey before entry).1.seedShadow = current.1.seedShadow := by
  unfold putEntry
  dsimp only
  split <;> rfl

private theorem putEntry_delta (current : State × StakeBlock) (pubkey : Pubkey) (before : Option StakeEntry)
    (entry : StakeEntry) : (putEntry current pubkey before entry).2.delta = current.2.delta := by
  unfold putEntry
  dsimp only
  split
  · exact noteFlip_delta _ _ _
  · rfl

private theorem putEntry_handled (current : State × StakeBlock) (pubkey : Pubkey) (before : Option StakeEntry)
    (entry : StakeEntry) : (putEntry current pubkey before entry).2.handled = current.2.handled := by
  unfold putEntry
  dsimp only
  split
  · exact noteFlip_handled _ _ _
  · rfl

private theorem putEntry_held (current : State × StakeBlock) (pubkey : Pubkey) (before : Option StakeEntry)
    (entry : StakeEntry) (key : Pubkey) :
    (putEntry current pubkey before entry).1.held key =
      if key = pubkey then some entry.version else current.1.held key := by
  unfold putEntry held
  dsimp only
  split
  · rw [HashMap.lookup_insert]
    split
    · rw [Option.map_some, version_place]
    · rfl
  · rw [HashMap.lookup_insert]
    split <;> rfl

theorem applyAccount_status (current : State × StakeBlock) (account : AccountInfo) :
    (applyAccount shared slot current account).1.status = current.1.status := by
  unfold applyAccount
  dsimp only
  split
  · split
    · split <;> rfl
    · exact putEntry_status ..
  · split
    · rfl
    · exact putEntry_status ..

theorem shadowSeed_lookup (state : State) (pubkey key : Pubkey) :
    (state.shadowSeed pubkey slot).seedShadow.lookup key =
      if key = pubkey then some ((state.seedShadow.lookup pubkey).elim slot fun seen => max seen slot)
      else state.seedShadow.lookup key :=
  HashMap.lookup_insert ..

/-- A write acts on the view of its own account only. -/
theorem stakeView_applyAccount (current : State × StakeBlock) (account : AccountInfo) (other : Pubkey) :
    stakeView (applyAccount shared slot current account) other =
      if other = account.pubkey then
        (stakeView current other).write (decide (current.1.status = .live))
          (decide (account.pubkey ∈ shared.pinned)) slot account
      else stakeView current other := by
  obtain ⟨state, block⟩ := current
  cases present : state.accounts.lookup account.pubkey with
  | none =>
    have absent : state.held account.pubkey = none := by rw [held, present, Option.map_none]
    simp only [applyAccount, present]
    by_cases dropped : (!decide (account.owner = stakeProgramId) && !decide (account.pubkey ∈ shared.pinned)) = true
    · rw [if_pos dropped]
      by_cases same : other = account.pubkey
      · subst same
        simp only [stakeView, StakeView.write, absent, dropped, if_true]
        split
        · rw [absent]
        · rw [shadowSeed_lookup, if_pos rfl]
          exact congrArg (StakeView.mk · _ _) absent
      · rw [if_neg same]
        split
        · rfl
        · simp only [stakeView, shadowSeed_lookup, if_neg same]
          rfl
    · rw [if_neg dropped]
      simp only [stakeView, putEntry_held, putEntry_seedShadow, putEntry_handled, version_entryFromAccount]
      split
      · next same =>
        subst same
        simp only [StakeView.write, absent, if_neg dropped]
      · rfl
  | some old =>
    have here : state.held account.pubkey = some old.version := by rw [held, present, Option.map_some]
    have handled : ∀ key, decide (key ∈ if decide (state.status = .live) && old.stakeOwned then
        insert account.pubkey block.handled else block.handled) =
          if key = account.pubkey then decide (key ∈ block.handled) ||
            (decide (state.status = .live) && old.stakeOwned) else decide (key ∈ block.handled) := by
      intro key
      by_cases same : key = account.pubkey
      · cases owned : (decide (state.status = .live) && old.stakeOwned) <;> simp [same]
      · cases owned : (decide (state.status = .live) && old.stakeOwned) <;> simp [same]
    simp only [applyAccount, present]
    split
    · next stale =>
      simp only [stakeView, handled]
      split
      · next same =>
        subst same
        simp only [StakeView.write, here, StakeView.owned, Option.any_some]
        congr 2
        exact (if_pos stale).symm
      · rfl
    · next fresh =>
      simp only [stakeView, putEntry_held, putEntry_seedShadow, putEntry_handled, version_entryFromAccount,
        handled]
      split
      · next same =>
        subst same
        simp only [StakeView.write, here, StakeView.owned, Option.any_some]
        congr 2
        exact (if_neg fresh).symm
      · rfl

/-- What a write adds to the block's delta depends on the view of its account. -/
theorem applyAccount_delta (current : State × StakeBlock) (account : AccountInfo) :
    (applyAccount shared slot current account).2.delta =
      current.2.delta + (stakeView current account.pubkey).gain (decide (current.1.status = .live)) slot
        account := by
  obtain ⟨state, block⟩ := current
  cases present : state.accounts.lookup account.pubkey with
  | none =>
    have absent : state.held account.pubkey = none := by rw [held, present, Option.map_none]
    simp only [applyAccount, present, stakeView, StakeView.gain, absent, add_zero]
    split
    · rfl
    · exact putEntry_delta ..
  | some old =>
    have here : state.held account.pubkey = some old.version := by rw [held, present, Option.map_some]
    have sum : ∀ owned : Bool, (if owned && decide (old.slot < slot) then
        block.delta + ((account.lamports : ℤ) - old.lamports) else block.delta) =
          block.delta + if old.slot < slot ∧ owned = true then (account.lamports : ℤ) - old.lamports else 0 := by
      intro owned
      by_cases fresh : old.slot < slot <;> cases owned <;> simp [fresh]
    simp only [applyAccount, present, stakeView, StakeView.gain, here, StakeView.owned, Option.any_some]
    split
    · exact sum _
    · rw [putEntry_delta]
      exact sum _

theorem applyAccount_local (status : Status) :
    KeyLocal (applyAccount shared slot) AccountInfo.pubkey stakeView
      (fun account => StakeView.write (decide (status = .live)) (decide (account.pubkey ∈ shared.pinned)) slot
        account)
      (fun current => current.1.status = status) where
  keeps current account valid := (applyAccount_status shared slot current account).trans valid
  acts current account other valid := by rw [stakeView_applyAccount, valid]

/-- The clock and its expiries leave every balance as it was. -/
theorem advanceClock_same (state : State) (accounts : List AccountInfo) (block : StakeBlock) :
    (advanceClock shared state accounts block).1.status = state.status ∧
      (∀ key, stakeView (advanceClock shared state accounts block) key = stakeView (state, block) key) ∧
      (advanceClock shared state accounts block).2.delta = block.delta ∧
      (advanceClock shared state accounts block).1.slot = state.slot := by
  unfold advanceClock
  split
  · exact ⟨rfl, fun _ => rfl, rfl, rfl⟩
  · next clock _ =>
    dsimp only
    split
    · have same := Expiring.sameBalances_expire clock
        ⟨(state.membership.setClock clock).1, state.accounts, block⟩
      refine ⟨rfl, fun key => ?_, same.delta, rfl⟩
      simp only [stakeView, held, same.held key, same.handled]
    · exact ⟨rfl, fun _ => rfl, rfl, rfl⟩

section Block

variable {state : State} {isRepaired : Bool} {accounts : List AccountInfo}

theorem applyBlock_eq (fresh : isRepaired = true ∨ state.slot < slot) :
    state.applyBlock shared slot isRepaired accounts =
      accounts.foldl (applyAccount shared slot)
        (advanceClock shared { state with slot := max state.slot slot } accounts .default) := by
  unfold applyBlock
  rw [if_neg]
  simp only [Bool.and_eq_true, Bool.not_eq_true', decide_eq_true_eq, not_and]
  intro live
  rcases fresh with repaired | later
  · rw [live] at repaired; contradiction
  · omega

private theorem foldl_slot (current : State × StakeBlock) :
    (accounts.foldl (applyAccount shared slot) current).1.slot = current.1.slot := by
  have one (current : State × StakeBlock) (account : AccountInfo) :
      (applyAccount shared slot current account).1.slot = current.1.slot := by
    unfold applyAccount putEntry
    dsimp only
    repeat' split
    all_goals rfl
  induction accounts generalizing current with
  | nil => rfl
  | cons account rest ih => rw [List.foldl_cons, ih, one]

theorem applyBlock_slot (fresh : isRepaired = true ∨ state.slot < slot) :
    (state.applyBlock shared slot isRepaired accounts).1.slot = max state.slot slot := by
  rw [applyBlock_eq shared slot fresh, foldl_slot, (advanceClock_same shared _ accounts .default).2.2.2]

theorem applyBlock_status (fresh : isRepaired = true ∨ state.slot < slot) :
    (state.applyBlock shared slot isRepaired accounts).1.status = state.status := by
  have same := advanceClock_same shared { state with slot := max state.slot slot } accounts .default
  rw [applyBlock_eq shared slot fresh]
  exact (applyAccount_local shared slot state.status).valid_foldl same.1 accounts

theorem stakeView_default (key : Pubkey) :
    stakeView (state, .default) key = ⟨state.held key, state.seedShadow.lookup key, false⟩ := by
  simp [stakeView, StakeBlock.default]

/-- A block acts once on every account it writes. -/
theorem applyBlock_view_of_mem (fresh : isRepaired = true ∨ state.slot < slot)
    (distinct : (accounts.map AccountInfo.pubkey).Nodup) {account : AccountInfo} (member : account ∈ accounts) :
    stakeView (state.applyBlock shared slot isRepaired accounts) account.pubkey =
      StakeView.write (decide (state.status = .live)) (decide (account.pubkey ∈ shared.pinned)) slot account
        (stakeView (state, .default) account.pubkey) := by
  have same := advanceClock_same shared { state with slot := max state.slot slot } accounts .default
  rw [applyBlock_eq shared slot fresh,
    (applyAccount_local shared slot state.status).view_foldl_of_mem same.1 distinct member, same.2.1]
  rfl

theorem applyBlock_view_of_not_mem (fresh : isRepaired = true ∨ state.slot < slot) {key : Pubkey}
    (absent : key ∉ accounts.map AccountInfo.pubkey) :
    stakeView (state.applyBlock shared slot isRepaired accounts) key = stakeView (state, .default) key := by
  have same := advanceClock_same shared { state with slot := max state.slot slot } accounts .default
  rw [applyBlock_eq shared slot fresh,
    (applyAccount_local shared slot state.status).view_foldl_of_not_mem same.1 absent, same.2.1]
  rfl

theorem applyBlock_delta (fresh : isRepaired = true ∨ state.slot < slot)
    (distinct : (accounts.map AccountInfo.pubkey).Nodup) :
    (state.applyBlock shared slot isRepaired accounts).2.delta =
      (accounts.map fun account => (stakeView (state, .default) account.pubkey).gain
        (decide (state.status = .live)) slot account).sum := by
  have same := advanceClock_same shared { state with slot := max state.slot slot } accounts .default
  have sum := (applyAccount_local shared slot state.status).acc_foldl
    (fun current => current.2.delta) (· + ·)
    (fun account view => view.gain (decide (state.status = .live)) slot account)
    (fun current account valid => by rw [applyAccount_delta, valid]) same.1 distinct
  rw [applyBlock_eq shared slot fresh, sum, foldl_add_eq_sum, same.2.2.1]
  simp only [same.2.1]
  exact zero_add _

end Block

end State

end Cloudbreak.Model.NonCirculating
