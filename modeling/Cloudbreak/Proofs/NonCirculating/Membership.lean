import Cloudbreak.ToMathlib.Run
import Cloudbreak.Model.NonCirculating.Layout
import Cloudbreak.Proofs.NonCirculating.Expiry

/-! # Membership equals evaluation

Before the flip no entry is placed. The flip places every kept entry, and from then on a block first expires
what its clock has passed and then places every entry it writes, so at every point the member set, the
expiry sets and the sum are those of the entries that evaluate to true. No step of the source fails on the
way.
-/

namespace Cloudbreak.Model.NonCirculating

open Cloudbreak.ToMathlib

variable {shared : Shared} {clock : BlockClock} {state : State} {slot : ℕ} {isRepaired : Bool}
  {accounts : List AccountInfo}

/-- The clock a block carries. -/
def blockClock (shared : Shared) (accounts : List AccountInfo) : Option BlockClock :=
  (accounts.find? fun account => account.pubkey = clockSysvarId).bind
    fun account => shared.deserializeClock account.data

/-- A clock of a later slot is not behind the stored one. -/
def State.ClockAdvances (shared : Shared) (state : State) (accounts : List AccountInfo) : Prop :=
  ∀ newer ∈ blockClock shared accounts, ∀ older ∈ state.membership.clock, older.slot < newer.slot →
    older.epoch ≤ newer.epoch ∧ older.unixTimestamp ≤ newer.unixTimestamp

instance : Decidable (state.ClockAdvances shared accounts) :=
  inferInstanceAs (Decidable (∀ newer ∈ blockClock shared accounts, ∀ older ∈ state.membership.clock, _ → _))

/-- What a block reports of its expiries, given the entries before it and the clock after it. -/
structure Expires (before : HashMap Pubkey StakeEntry) (clock : BlockClock) (block : StakeBlock) : Prop where
  reported : ∀ key lamports, (key, lamports) ∈ block.expired ↔ ∃ entry,
    before.lookup key = some entry ∧ entry.member ∧ entry.evaluate clock = false ∧ entry.lamports = lamports
  once : (block.expired.map Prod.fst).Nodup

/-- Under an unchanged clock nothing expires. -/
theorem Placed.expiresNothing {before : HashMap Pubkey StakeEntry} {membership : Membership}
    (placed : Placed shared clock before membership) : Expires before clock .default := by
  refine ⟨fun key lamports => iff_of_false List.not_mem_nil ?_, List.nodup_nil⟩
  rintro ⟨entry, present, member, out, -⟩
  rw [(placed.flags key entry present).member, out] at member
  contradiction

namespace State

private theorem noteFlip_expired (was now : Bool) (block : StakeBlock) :
    (noteFlip was now block).expired = block.expired := by
  unfold noteFlip
  split <;> rfl

private theorem putEntry_expired (current : State × StakeBlock) (pubkey : Pubkey) (before : Option StakeEntry)
    (entry : StakeEntry) : (putEntry current pubkey before entry).2.expired = current.2.expired := by
  unfold putEntry
  dsimp only
  split
  · exact noteFlip_expired _ _ _
  · rfl

private theorem putEntry_placed (current : State × StakeBlock) (live : current.1.status = .live)
    (placed : Placed shared clock current.1.accounts current.1.membership) {key : Pubkey} (entry : StakeEntry)
    (pinned : entry.pinned = decide (key ∈ shared.pinned)) :
    Placed shared clock (putEntry current key (current.1.accounts.lookup key) entry).1.accounts
      (putEntry current key (current.1.accounts.lookup key) entry).1.membership := by
  unfold putEntry
  dsimp only
  rw [if_pos live]
  exact placed.put pinned

/-- One account of a live block: nothing fails, and the entries stay placed. -/
theorem applyAccount_placed (slot : ℕ) {current : State × StakeBlock} (live : current.1.status = .live)
    (placed : Placed shared clock current.1.accounts current.1.membership) (account : AccountInfo) :
    applyAccountChecked shared slot current account = some (applyAccount shared slot current account) ∧
      Placed shared clock (applyAccount shared slot current account).1.accounts
        (applyAccount shared slot current account).1.membership ∧
      (applyAccount shared slot current account).2.expired = current.2.expired := by
  obtain ⟨state, block⟩ := current
  change state.status = .live at live
  change Placed shared clock state.accounts state.membership at placed
  cases present : state.accounts.lookup account.pubkey with
  | none =>
    refine ⟨by simp only [applyAccountChecked, present], ?_⟩
    simp only [applyAccount, present]
    split
    · rw [if_pos (decide_eq_true live)]
      exact ⟨placed, rfl⟩
    · have put := putEntry_placed (state, block) live placed
        (shared.entryFromAccount (decide (account.owner = stakeProgramId)) (decide (account.pubkey ∈ shared.pinned))
          account.lamports account.data slot)
        (entryFromAccount_pinned ..)
      rw [present] at put
      exact ⟨put, putEntry_expired _ _ _ _⟩
  | some old =>
    have unplaces : (state.membership.unplaceChecked account.pubkey old).isSome := by
      rw [Membership.unplaceChecked, if_neg]
      · rfl
      · intro underflows
        rw [Bool.and_eq_true, decide_eq_true_eq] at underflows
        exact absurd (placed.indexed.covers present underflows.1) (not_le.mpr underflows.2)
    refine ⟨?_, ?_⟩
    · simp only [applyAccountChecked, present]
      split
      · rfl
      · rw [Option.map_eq_some_iff]
        obtain ⟨unplaced, same⟩ := Option.isSome_iff_exists.mp unplaces
        exact ⟨unplaced, same, rfl⟩
    · simp only [applyAccount, present]
      split
      · exact ⟨placed, rfl⟩
      · have put := putEntry_placed (state, { block with
            handled := if decide (state.status = .live) && old.stakeOwned then insert account.pubkey block.handled
              else block.handled
            delta := if (decide (state.status = .live) && old.stakeOwned) && decide (old.slot < slot) then
              block.delta + (account.lamports - old.lamports) else block.delta }) live placed
          (shared.entryFromAccount (decide (account.owner = stakeProgramId))
            (decide (account.pubkey ∈ shared.pinned)) account.lamports account.data slot)
          (entryFromAccount_pinned ..)
        rw [present] at put
        exact ⟨put, putEntry_expired _ _ _ _⟩

private theorem foldl_placed {current : State × StakeBlock} (live : current.1.status = .live)
    (placed : Placed shared clock current.1.accounts current.1.membership) :
    accounts.foldlM (applyAccountChecked shared slot) current =
        some (accounts.foldl (applyAccount shared slot) current) ∧
      Placed shared clock (accounts.foldl (applyAccount shared slot) current).1.accounts
        (accounts.foldl (applyAccount shared slot) current).1.membership ∧
      (accounts.foldl (applyAccount shared slot) current).2.expired = current.2.expired := by
  induction accounts generalizing current with
  | nil => exact ⟨rfl, placed, rfl⟩
  | cons account rest ih =>
    obtain ⟨checked, placedNow, expired⟩ := applyAccount_placed slot live placed account
    obtain ⟨ran, placedLater, later⟩ := ih ((applyAccount_status shared slot current account).trans live) placedNow
    rw [List.foldlM_cons, checked, List.foldl_cons]
    exact ⟨ran, placedLater, later.trans expired⟩

/-- The clock of a block expires what it has passed. -/
theorem advanceClock_placed (state : State) (live : state.status = .live)
    (placed : Placed shared clock state.accounts state.membership) (advances : state.ClockAdvances shared accounts) :
    ∃ now, advanceClockChecked shared state accounts .default = some (advanceClock shared state accounts .default) ∧
      Placed shared now (advanceClock shared state accounts .default).1.accounts
        (advanceClock shared state accounts .default).1.membership ∧
      Expires state.accounts now (advanceClock shared state accounts .default).2 ∧
      ∀ key, ((advanceClock shared state accounts .default).1.accounts.lookup key).map StakeEntry.written =
        (state.accounts.lookup key).map StakeEntry.written := by
  have carried : blockClock shared accounts = (accounts.find? fun account => account.pubkey = clockSysvarId).bind
    fun account => shared.deserializeClock account.data := rfl
  unfold advanceClock advanceClockChecked
  rw [← carried]
  cases found : blockClock shared accounts with
  | none => exact ⟨clock, rfl, placed, placed.expiresNothing, fun _ => rfl⟩
  | some newer =>
    by_cases stale : newer.slot ≤ clock.slot
    · have kept : state.membership.setClock newer = (state.membership, false) := by
        rw [Membership.setClock, placed.clocked]
        exact if_pos (decide_eq_true stale)
      simp only [kept, Bool.false_and, Bool.false_eq_true, if_false, true_and]
      exact ⟨clock, placed, placed.expiresNothing, fun _ => trivial⟩
    · have set : state.membership.setClock newer = ({ state.membership with clock := some newer }, true) := by
        rw [Membership.setClock, placed.clocked]
        exact if_neg (by simpa using stale)
      obtain ⟨epochs, timestamps⟩ := advances newer found clock placed.clocked (not_le.mp stale)
      obtain ⟨ran, placedNow, records, reported, once⟩ :=
        Expiring.expire_placed placed epochs timestamps
          (show StakeBlock.default.expired = [] from rfl)
      simp only [set, live, decide_true, Bool.and_true, if_true]
      refine ⟨newer, ?_, placedNow, ⟨reported, once⟩, records⟩
      rw [ran]
      rfl

/-- A block on a live tracker: nothing fails, the entries are placed under the clock it leaves, and it reports
the members that clock expired. -/
theorem applyBlock_placed (live : state.status = .live) (placed : Placed shared clock state.accounts state.membership)
    (advances : state.ClockAdvances shared accounts) :
    ∃ now, state.applyBlockChecked shared slot isRepaired accounts =
        some (state.applyBlock shared slot isRepaired accounts) ∧
      Placed shared now (state.applyBlock shared slot isRepaired accounts).1.accounts
        (state.applyBlock shared slot isRepaired accounts).1.membership ∧
      Expires state.accounts now (state.applyBlock shared slot isRepaired accounts).2 := by
  unfold applyBlockChecked applyBlock
  split
  · exact ⟨clock, rfl, placed, placed.expiresNothing⟩
  · obtain ⟨now, checked, placedNow, expires, -⟩ :=
      advanceClock_placed { state with slot := max state.slot slot } live placed advances
    have liveNow := ((advanceClock_same shared { state with slot := max state.slot slot } accounts .default).1).trans live
    obtain ⟨ran, placedLater, expired⟩ := foldl_placed liveNow placedNow
    rw [checked]
    refine ⟨now, ran, placedLater, ⟨fun key lamports => ?_, ?_⟩⟩
    · rw [expired]
      exact expires.reported key lamports
    · rw [expired]
      exact expires.once

/-! ## The flip -/

/-- Before the flip no entry is placed and the membership side is as it began, but for the clock. -/
structure Unplaced (shared : Shared) (state : State) : Prop where
  booting : state.status = .bootstrapping
  flags : ∀ key entry, state.accounts.lookup key = some entry → entry.written = entry
  pinned : ∀ key entry, state.accounts.lookup key = some entry → entry.pinned = decide (key ∈ shared.pinned)
  members : state.membership.members = shared.pinned
  byEpoch : state.membership.byEpoch = []
  byTimestamp : state.membership.byTimestamp = []
  total : state.membership.total = 0

theorem written_entryFromAccount (stakeOwned pinned : Bool) (lamports : ℕ) (data : List UInt8) :
    (shared.entryFromAccount stakeOwned pinned lamports data slot).written =
      shared.entryFromAccount stakeOwned pinned lamports data slot := by
  unfold Shared.entryFromAccount
  dsimp only
  split
  · rfl
  · split <;> rfl

theorem Unplaced.new : Unplaced shared (.new shared) :=
  ⟨rfl, fun key entry present => by simp [State.new] at present, pinFlags_new shared, rfl, rfl, rfl, rfl⟩

/-- A write that only touches one entry. -/
theorem Unplaced.insert (unplaced : Unplaced shared state) (account : AccountInfo) :
    Unplaced shared { state with
      accounts := state.accounts.insert account.pubkey (shared.entryFromAccount
        (decide (account.owner = stakeProgramId)) (decide (account.pubkey ∈ shared.pinned)) account.lamports
        account.data slot) } := by
  refine { unplaced with flags := fun key entry present => ?_, pinned := fun key entry present => ?_ }
  · simp only [HashMap.lookup_insert] at present
    split at present
    · cases present; exact written_entryFromAccount ..
    · exact unplaced.flags key entry present
  · simp only [HashMap.lookup_insert] at present
    split at present
    · next same => cases present; rw [same]; exact entryFromAccount_pinned ..
    · exact unplaced.pinned key entry present

theorem Unplaced.setClock (unplaced : Unplaced shared state) (newer : BlockClock) :
    Unplaced shared { state with membership := (state.membership.setClock newer).1 } := by
  unfold Membership.setClock
  split
  · exact unplaced
  · exact { unplaced with }

theorem Unplaced.seedAccount (unplaced : Unplaced shared state) (account : AccountInfo) :
    Unplaced shared (state.seedAccount shared account slot) := by
  unfold State.seedAccount
  split
  · split
    · exact unplaced.setClock _
    · exact unplaced
  · dsimp only
    split
    · exact unplaced
    · split
      · split
        · exact unplaced.insert account
        · exact unplaced
      · split
        · exact unplaced.insert account
        · exact unplaced

theorem Unplaced.applyAccount {current : State × StakeBlock} (unplaced : Unplaced shared current.1)
    (account : AccountInfo) : Unplaced shared (State.applyAccount shared slot current account).1 := by
  have put : ∀ block before, Unplaced shared (putEntry (current.1, block) account.pubkey before
      (shared.entryFromAccount (decide (account.owner = stakeProgramId)) (decide (account.pubkey ∈ shared.pinned))
        account.lamports account.data slot)).1 := by
    intro block before
    unfold putEntry
    dsimp only
    rw [if_neg (by rw [unplaced.booting]; decide)]
    exact unplaced.insert account
  unfold State.applyAccount
  dsimp only
  split
  · split
    · split
      · exact unplaced
      · exact { unplaced with }
    · exact put _ _
  · split
    · exact unplaced
    · exact put _ _

theorem Unplaced.applyBlock (unplaced : Unplaced shared state) :
    Unplaced shared (state.applyBlock shared slot isRepaired accounts).1 := by
  have folded : ∀ current : State × StakeBlock, Unplaced shared current.1 →
      Unplaced shared (accounts.foldl (State.applyAccount shared slot) current).1 := by
    induction accounts with
    | nil => exact fun _ unplaced => unplaced
    | cons account rest ih => exact fun current unplaced => ih _ (unplaced.applyAccount account)
  unfold State.applyBlock
  split
  · exact unplaced
  · refine folded _ ?_
    unfold advanceClock
    split
    · exact { unplaced with }
    · next newer _ =>
      have idle : decide (state.status = .live) = false := by rw [unplaced.booting]; rfl
      simp only [idle, Bool.and_false, Bool.false_eq_true, if_false]
      exact { unplaced.setClock newer with }

/-- The entries of a list are placed one after another; the rest of the map is placed already. -/
theorem placeAll_placed {items : List ((_ : Pubkey) × StakeEntry)} {membership : Membership}
    {placedSoFar : HashMap Pubkey StakeEntry} (indexed : Indexed shared placedSoFar membership)
    (clocked : membership.clock = some clock) (distinct : (items.map Sigma.fst).Nodup)
    (waiting : ∀ item ∈ items, placedSoFar.lookup item.1 = some item.2 ∧ item.2.written = item.2)
    (done : ∀ key entry, placedSoFar.lookup key = some entry → entry.PlacedAt clock ∨ key ∈ items.map Sigma.fst)
    (pinned : ∀ key entry, placedSoFar.lookup key = some entry → entry.pinned = decide (key ∈ shared.pinned)) :
    let result := items.foldl (fun placed item =>
      ((placed.1.place item.1 item.2).1, placed.2.insert item.1 (placed.1.place item.1 item.2).2.1))
      (membership, placedSoFar)
    Placed shared clock result.2 result.1 := by
  induction items generalizing membership placedSoFar with
  | nil =>
    refine ⟨indexed, clocked, fun key entry present => ?_, pinned⟩
    exact (done key entry present).resolve_right List.not_mem_nil
  | cons item rest ih =>
    obtain ⟨present, unflagged⟩ := waiting item List.mem_cons_self
    rw [List.map_cons, List.nodup_cons] at distinct
    have untouched : (placedSoFar.lookup item.1).elim membership (membership.unplace item.1) = membership := by
      rw [present, ← unflagged]
      rfl
    have place := indexed.place clock (pinned item.1 item.2 present)
    dsimp only at place
    rw [untouched] at place
    have placing : membership.place item.1 item.2 = membership.placeAt clock item.1 item.2 := by
      rw [Membership.place, clocked]
    rw [List.foldl_cons]
    dsimp only
    rw [placing]
    refine ih place clocked distinct.2 (fun other member => ?_) (fun key entry found => ?_) fun key entry found => ?_
    · obtain ⟨otherPresent, otherUnflagged⟩ := waiting other (List.mem_cons_of_mem _ member)
      rw [HashMap.lookup_insert, if_neg]
      · exact ⟨otherPresent, otherUnflagged⟩
      · rintro same
        exact distinct.1 (same ▸ List.mem_map_of_mem member)
    · rw [HashMap.lookup_insert] at found
      split at found
      · cases found
        exact Or.inl (placedAt_placeAt _)
      · next differ =>
        refine (done key entry found).imp_right fun member => ?_
        rw [List.map_cons, List.mem_cons] at member
        exact member.resolve_left differ
    · rw [HashMap.lookup_insert] at found
      split at found
      · next same =>
        cases found
        rw [same, ← pinned item.1 item.2 present]
        rfl
      · exact pinned key entry found

/-- The flip places every kept entry. -/
theorem finishBootstrap_placed {next : State} (unplaced : Unplaced shared state)
    (finished : state.finishBootstrap = some next) :
    ∃ clock, next.status = .live ∧ Placed shared clock next.accounts next.membership := by
  unfold finishBootstrap at finished
  split at finished
  · contradiction
  · split at finished
    · contradiction
    · next booting clocked =>
      obtain ⟨clock, stored⟩ : ∃ clock, state.membership.clock = some clock := by
        cases found : state.membership.clock with
        | none => exact absurd (congrArg Option.isNone found) clocked
        | some clock => exact ⟨clock, rfl⟩
      cases finished
      refine ⟨clock, rfl, ?_⟩
      have lookups : ∀ key entry, (state.accounts.retain fun _ entry => entry.stakeOwned || entry.pinned).lookup key =
          some entry → state.accounts.lookup key = some entry := by
        intro key entry present
        rw [HashMap.lookup_retain, Option.filter_eq_some_iff] at present
        exact present.1
      refine placeAll_placed ?_ stored (HashMap.retain _ _).nodupKeys (fun item member => ?_) (fun key entry present => ?_)
        fun key entry present => unplaced.pinned key entry (lookups key entry present)
      · have noFlags : ∀ key entry, (state.accounts.retain fun _ entry => entry.stakeOwned || entry.pinned).lookup key =
            some entry → entry.member = false ∧ entry.inByEpoch = false ∧ entry.inByTimestamp = false := by
          intro key entry present
          rw [← unplaced.flags key entry (lookups key entry present)]
          exact ⟨rfl, rfl, rfl⟩
        refine ⟨fun item => ?_, fun item => ?_, ?_, ?_, fun key => ?_, ?_⟩
        · rw [unplaced.byEpoch]
          refine iff_of_false List.not_mem_nil ?_
          rintro ⟨entry, present, flagged, -⟩
          exact absurd ((noFlags _ entry present).2.1.symm.trans flagged) Bool.false_ne_true
        · rw [unplaced.byTimestamp]
          refine iff_of_false List.not_mem_nil ?_
          rintro ⟨entry, present, flagged, -⟩
          exact absurd ((noFlags _ entry present).2.2.symm.trans flagged) Bool.false_ne_true
        · rw [unplaced.byEpoch]
          exact List.Pairwise.nil
        · rw [unplaced.byTimestamp]
          exact List.Pairwise.nil
        · rw [unplaced.members]
          refine (or_iff_left ?_).symm
          rintro ⟨entry, present, flagged⟩
          exact absurd ((noFlags _ entry present).1.symm.trans flagged) Bool.false_ne_true
        · rw [unplaced.total, HashMap.sum_eq_univ]
          refine (Finset.sum_eq_zero fun key _ => ?_).symm
          cases present : (state.accounts.retain fun _ entry => entry.stakeOwned || entry.pinned).lookup key with
          | none => rfl
          | some entry =>
            rw [Option.elim_some, memberLamports, (noFlags key entry present).1]
            exact if_neg Bool.false_ne_true
      · have present : (state.accounts.retain fun _ entry => entry.stakeOwned || entry.pinned).lookup item.1 =
            some item.2 := HashMap.lookup_eq_some_iff.mpr member
        exact ⟨present, unplaced.flags _ _ (lookups _ _ present)⟩
      · exact Or.inr (List.mem_map_of_mem (HashMap.lookup_eq_some_iff.mp present))

/-! ## Every run -/

/-- Snapshot accounts come before the flip, and a live tracker's clocks do not go back. -/
def LiveFeed (shared : Shared) (state : State) : Feed → Prop
  | .seed _ _ => state.status = .bootstrapping
  | .block _ _ accounts => state.status = .live → state.ClockAdvances shared accounts
  | .finishBootstrap => True

instance : (event : Feed) → Decidable (state.LiveFeed shared event)
  | .seed _ _ => inferInstanceAs (Decidable (_ = _))
  | .block _ _ _ => inferInstanceAs (Decidable (_ = _ → _))
  | .finishBootstrap => inferInstanceAs (Decidable True)

/-- The tracker before the flip, or placed under some clock after it. -/
def Kept (shared : Shared) (state : State) : Prop :=
  Unplaced shared state ∨ state.status = .live ∧ ∃ clock, Placed shared clock state.accounts state.membership

private theorem applyBlock_live (live : state.status = .live) :
    (state.applyBlock shared slot isRepaired accounts).1.status = .live := by
  by_cases fresh : isRepaired = true ∨ state.slot < slot
  · exact (applyBlock_status shared slot fresh).trans live
  · rw [applyBlock, if_pos]
    · exact live
    · simp only [not_or, Bool.not_eq_true, not_lt] at fresh
      simp [fresh.1, fresh.2]

theorem Kept.feed (kept : Kept shared state) {event : Feed} {next : State} (allowed : state.LiveFeed shared event)
    (fed : state.feed shared event = some next) : Kept shared next := by
  cases event with
  | seed slot account =>
    cases fed
    rcases kept with unplaced | ⟨live, -⟩
    · exact Or.inl (unplaced.seedAccount account)
    · rw [LiveFeed, live] at allowed
      contradiction
  | block slot isRepaired accounts =>
    cases fed
    rcases kept with unplaced | ⟨live, clock, placed⟩
    · exact Or.inl unplaced.applyBlock
    · obtain ⟨now, -, placedNow, -⟩ := applyBlock_placed live placed (allowed live)
      exact Or.inr ⟨applyBlock_live live, now, placedNow⟩
  | finishBootstrap =>
    rcases kept with unplaced | ⟨live, -⟩
    · obtain ⟨clock, live, placed⟩ := finishBootstrap_placed unplaced fed
      exact Or.inr ⟨live, clock, placed⟩
    · rw [State.feed, finishBootstrap, if_pos live] at fed
      contradiction

/-- The member set, the expiry sets, the flags and the sum are those the evaluation against the clock gives. -/
structure Evaluated (shared : Shared) (state : State) (clock : BlockClock) : Prop where
  total : state.membership.total =
    ((state.accounts.values.filter fun entry => entry.evaluate clock).map fun entry => (entry.lamports : ℤ)).sum
  members : ∀ key, key ∈ state.membership.members ↔
    key ∈ shared.pinned ∨ ∃ entry, state.accounts.lookup key = some entry ∧ entry.evaluate clock
  byEpoch : ∀ epoch key, (epoch, key) ∈ state.membership.byEpoch ↔ ∃ entry, state.accounts.lookup key = some entry ∧
    entry.lockupOnly ∧ entry.evaluate clock ∧ entry.lockupEpoch > clock.epoch ∧ entry.lockupEpoch = epoch
  byTimestamp : ∀ unixTimestamp key, (unixTimestamp, key) ∈ state.membership.byTimestamp ↔
    ∃ entry, state.accounts.lookup key = some entry ∧ entry.lockupOnly ∧ entry.evaluate clock ∧
      entry.lockupEpoch ≤ clock.epoch ∧ entry.lockupUnixTimestamp = unixTimestamp
  onceByEpoch : state.membership.byEpoch.Nodup
  onceByTimestamp : state.membership.byTimestamp.Nodup
  flags : ∀ key entry, state.accounts.lookup key = some entry → entry.member = entry.evaluate clock ∧
    (entry.inByEpoch ↔ (entry.lockupEpoch, key) ∈ state.membership.byEpoch) ∧
    (entry.inByTimestamp ↔ (entry.lockupUnixTimestamp, key) ∈ state.membership.byTimestamp)

private theorem placedFlags_iff {entry : StakeEntry} (placed : entry.PlacedAt clock) :
    (entry.inByEpoch ↔ entry.lockupOnly ∧ entry.evaluate clock ∧ entry.lockupEpoch > clock.epoch) ∧
      (entry.inByTimestamp ↔ entry.lockupOnly ∧ entry.evaluate clock ∧ entry.lockupEpoch ≤ clock.epoch) := by
  have lockup : entry.lockupOnly ∧ entry.evaluate clock ↔
      (entry.evaluate clock && !entry.pinned && !entry.listedWithdrawer) := by
    rw [Bool.and_eq_true, Bool.and_eq_true, Bool.not_eq_true', Bool.not_eq_true']
    constructor
    · rintro ⟨only, holds⟩
      simp only [StakeEntry.lockupOnly, Bool.and_eq_true, Bool.not_eq_true'] at only
      exact ⟨⟨holds, only.1.2⟩, only.2⟩
    · rintro ⟨⟨holds, notPinned⟩, notListed⟩
      exact ⟨lockupOnly_of_evaluate holds notPinned notListed, holds⟩
  constructor
  · rw [placed.inByEpoch, Bool.and_eq_true, ← lockup, and_assoc, decide_eq_true_eq]
  · rw [placed.inByTimestamp, Bool.and_eq_true, ← lockup, and_assoc, Bool.not_eq_true', decide_eq_false_iff_not, not_lt]

private theorem evaluated_of_placed (placed : Placed shared clock state.accounts state.membership) :
    Evaluated shared state clock where
  total := by
    rw [placed.indexed.total, HashMap.sum, HashMap.values]
    have counted : ∀ entry ∈ state.accounts.entries, memberLamports entry.1 entry.2 =
        if entry.2.evaluate clock then (entry.2.lamports : ℤ) else 0 := by
      intro entry member
      rw [memberLamports, (placed.flags _ _ (HashMap.lookup_eq_some_iff.mpr member)).member]
    rw [List.map_congr_left counted]
    clear counted
    induction state.accounts.entries with
    | nil => rfl
    | cons entry rest ih =>
      rw [List.map_cons, List.sum_cons, ih, List.map_cons, List.filter_cons]
      split
      · rw [List.map_cons, List.sum_cons]
      · rw [zero_add]
  members key := by
    rw [placed.indexed.members]
    refine or_congr_right (exists_congr fun entry => and_congr_right fun present => ?_)
    rw [(placed.flags key entry present).member]
  byEpoch epoch key := by
    rw [placed.indexed.epochs]
    refine exists_congr fun entry => and_congr_right fun present => ?_
    rw [(placedFlags_iff (placed.flags key entry present)).1]
    simp only [and_assoc]
  byTimestamp unixTimestamp key := by
    rw [placed.indexed.timestamps]
    refine exists_congr fun entry => and_congr_right fun present => ?_
    rw [(placedFlags_iff (placed.flags key entry present)).2]
    simp only [and_assoc]
  onceByEpoch := placed.indexed.epochsAscend.nodup
  onceByTimestamp := placed.indexed.timestampsAscend.nodup
  flags key entry present := by
    refine ⟨(placed.flags key entry present).member, ?_, ?_⟩
    · rw [placed.indexed.epochs]
      refine ⟨fun flagged => ⟨entry, present, flagged, rfl⟩, ?_⟩
      rintro ⟨found, here, flagged, -⟩
      cases present.symm.trans here
      exact flagged
    · rw [placed.indexed.timestamps]
      refine ⟨fun flagged => ⟨entry, present, flagged, rfl⟩, ?_⟩
      rintro ⟨found, here, flagged, -⟩
      cases present.symm.trans here
      exact flagged

/-- In every state a live tracker reaches, membership is what the evaluation gives; and no step of the next block
fails, whatever it writes, and it reports once each member its clock expires. -/
theorem membership_equals_evaluation (shared : Shared) {events : List Feed}
    (run : Run (.new shared) (feed shared) (fun _ state event => state.LiveFeed shared event) events state)
    (live : state.status = .live) :
    ∃ clock, state.membership.clock = some clock ∧ Evaluated shared state clock ∧
      ∀ slot isRepaired accounts, state.ClockAdvances shared accounts →
        state.applyBlockChecked shared slot isRepaired accounts =
            some (state.applyBlock shared slot isRepaired accounts) ∧
          ∃ now, (state.applyBlock shared slot isRepaired accounts).1.membership.clock = some now ∧
            Expires state.accounts now (state.applyBlock shared slot isRepaired accounts).2 := by
  have kept : Kept shared state :=
    run.stateInvariant (Or.inl .new) fun _ state event next kept allowed fed => kept.feed allowed fed
  rcases kept with unplaced | ⟨-, clock, placed⟩
  · rw [unplaced.booting] at live
    contradiction
  · refine ⟨clock, placed.clocked, evaluated_of_placed placed, fun slot isRepaired accounts advances => ?_⟩
    obtain ⟨now, checked, placedNow, expires⟩ := applyBlock_placed live placed advances
    exact ⟨checked, now, placedNow.clocked, expires⟩

/-- A stake account whose epoch lockup the next clock passes. -/
private def oneExpiry : List Feed :=
  [.seed 10 ⟨clockSysvarId, 0, 1, encodeClock ⟨10, 5, 1000⟩⟩, .finishBootstrap,
    .block 11 false [⟨1, stakeProgramId, 100, encodeInitialized 0 6⟩],
    .block 12 false [⟨clockSysvarId, 0, 1, encodeClock ⟨12, 6, 2000⟩⟩]]

theorem membership_equals_evaluation_expiring :
    ∃ shared state clock, Run (.new shared) (feed shared) (fun _ state event => state.LiveFeed shared event)
      oneExpiry state ∧ Evaluated shared state clock := by
  have replayed : (Run.replay (feed (.ofLayout ∅ ∅ (by decide)))
      (fun _ state event => state.LiveFeed (.ofLayout ∅ ∅ (by decide)) event) [] (.new (.ofLayout ∅ ∅ (by decide)))
      oneExpiry).any (fun state => decide (state.status = .live)) = true := by decide +kernel
  obtain ⟨state, ran, live⟩ := (Option.any_eq_true _ _).mp replayed
  obtain ⟨clock, -, evaluated, -⟩ := membership_equals_evaluation _ (Run.replayed ran) (of_decide_eq_true live)
  exact ⟨_, state, clock, Run.replayed ran, evaluated⟩

end State

end Cloudbreak.Model.NonCirculating
