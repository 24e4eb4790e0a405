import Cloudbreak.Proofs.NonCirculating.Placement

/-! # Expiries

A newer clock drains the two expiry sets from their heads. While it drains, every entry is either still in a
set, or its flag is already what the new clock gives. Each pop finds its entry, subtracts a balance the sum
covers, and reports the pubkey once; what is left is placed under the new clock.
-/

namespace Cloudbreak.Model.NonCirculating

open Cloudbreak.ToMathlib

variable {shared : Shared} {clock : BlockClock} {start : HashMap Pubkey StakeEntry} {state after : Expiring}
  {key : Pubkey} {entry : StakeEntry}

/-- The entry as its write built it, before any placement. -/
def StakeEntry.written (entry : StakeEntry) : StakeEntry :=
  { entry with member := false, inByEpoch := false, inByTimestamp := false }

/-- Held by its lockup alone, so it can expire. -/
def StakeEntry.lockupOnly (entry : StakeEntry) : Bool :=
  entry.stakeOwned && entry.lockup && !entry.pinned && !entry.listedWithdrawer

theorem evaluate_lockupOnly (only : entry.lockupOnly) :
    entry.evaluate clock =
      (decide (entry.lockupUnixTimestamp > clock.unixTimestamp) || decide (entry.lockupEpoch > clock.epoch)) := by
  simp only [StakeEntry.lockupOnly, Bool.and_eq_true, Bool.not_eq_true'] at only
  obtain ⟨⟨⟨owned, lockup⟩, notPinned⟩, notListed⟩ := only
  simp [StakeEntry.evaluate, owned, lockup, notPinned, notListed]

theorem lockupOnly_of_evaluate (holds : entry.evaluate clock) (notPinned : entry.pinned = false)
    (notListed : entry.listedWithdrawer = false) : entry.lockupOnly := by
  simp only [StakeEntry.evaluate, notPinned, Bool.false_or, Bool.and_eq_true] at holds
  simp [StakeEntry.lockupOnly, holds.1.1, holds.1.2, notPinned, notListed]

/-- In an expiry set, or settled under the clock. -/
structure StakeEntry.Draining (clock : BlockClock) (entry : StakeEntry) : Prop where
  settled : entry.inByEpoch = false → entry.inByTimestamp = false →
    entry.member = entry.evaluate clock ∧ (entry.evaluate clock → entry.pinned ∨ entry.listedWithdrawer)
  epoch : entry.inByEpoch → entry.lockupOnly ∧ entry.member ∧ entry.inByTimestamp = false
  timestamp : entry.inByTimestamp → entry.lockupOnly ∧ entry.member ∧ entry.lockupEpoch ≤ clock.epoch

/-- An entry placed under an older clock is draining under a newer one. -/
theorem StakeEntry.PlacedAt.draining {older : BlockClock} (placed : entry.PlacedAt older)
    (epochs : older.epoch ≤ clock.epoch) (timestamps : older.unixTimestamp ≤ clock.unixTimestamp) :
    entry.Draining clock := by
  obtain ⟨member, inByEpoch, inByTimestamp⟩ := placed
  refine ⟨fun noEpoch noTimestamp => ?_, fun flagged => ?_, fun flagged => ?_⟩
  · rw [noEpoch] at inByEpoch
    rw [noTimestamp] at inByTimestamp
    rw [member]
    by_cases fixed : entry.pinned ∨ entry.listedWithdrawer
    · refine ⟨?_, fun _ => fixed⟩
      rcases fixed with fixed | fixed <;> simp [StakeEntry.evaluate, fixed]
    · simp only [not_or, Bool.not_eq_true] at fixed
      have out : entry.evaluate older = false := by
        by_contra holds
        rw [Bool.not_eq_false] at holds
        by_cases later : entry.lockupEpoch > older.epoch
        · simp [holds, fixed.1, fixed.2, later] at inByEpoch
        · simp [holds, fixed.1, fixed.2, later] at inByTimestamp
      cases now : entry.evaluate clock with
      | false => exact ⟨out, fun holds => absurd holds (by simp)⟩
      | true =>
        have only := lockupOnly_of_evaluate now fixed.1 fixed.2
        rw [evaluate_lockupOnly only, Bool.or_eq_true, decide_eq_true_eq, decide_eq_true_eq] at now
        rw [evaluate_lockupOnly only, Bool.or_eq_false_iff, decide_eq_false_iff_not, decide_eq_false_iff_not] at out
        omega
  · rw [flagged, eq_comm, Bool.and_eq_true, Bool.and_eq_true, Bool.and_eq_true] at inByEpoch
    obtain ⟨⟨⟨holds, notPinned⟩, notListed⟩, later⟩ := inByEpoch
    refine ⟨lockupOnly_of_evaluate holds (by simpa using notPinned) (by simpa using notListed),
      member.trans holds, ?_⟩
    simp [inByTimestamp, later]
  · rw [flagged, eq_comm, Bool.and_eq_true, Bool.and_eq_true, Bool.and_eq_true] at inByTimestamp
    obtain ⟨⟨⟨holds, notPinned⟩, notListed⟩, notLater⟩ := inByTimestamp
    refine ⟨lockupOnly_of_evaluate holds (by simpa using notPinned) (by simpa using notListed),
      member.trans holds, ?_⟩
    rw [Bool.not_eq_true', decide_eq_false_iff_not, not_lt] at notLater
    exact notLater.trans epochs

/-- Once nothing in the sets has expired, a draining entry is placed. -/
theorem StakeEntry.Draining.placedAt (draining : entry.Draining clock)
    (epochs : entry.inByEpoch → entry.lockupEpoch > clock.epoch)
    (timestamps : entry.inByTimestamp → entry.lockupUnixTimestamp > clock.unixTimestamp) :
    entry.PlacedAt clock := by
  cases inEpoch : entry.inByEpoch with
  | true =>
    obtain ⟨only, member, noTimestamp⟩ := draining.epoch inEpoch
    have later := epochs inEpoch
    have holds : entry.evaluate clock := by simp [evaluate_lockupOnly only, later]
    simp only [StakeEntry.lockupOnly, Bool.and_eq_true, Bool.not_eq_true'] at only
    refine ⟨member.trans holds.symm, ?_, ?_⟩ <;> simp [inEpoch, noTimestamp, holds, only.1.2, only.2, later]
  | false =>
    cases inTimestamp : entry.inByTimestamp with
    | true =>
      obtain ⟨only, member, notLater⟩ := draining.timestamp inTimestamp
      have holds : entry.evaluate clock := by simp [evaluate_lockupOnly only, timestamps inTimestamp]
      simp only [StakeEntry.lockupOnly, Bool.and_eq_true, Bool.not_eq_true'] at only
      refine ⟨member.trans holds.symm, ?_, ?_⟩ <;>
        simp [inEpoch, inTimestamp, holds, only.1.2, only.2, not_lt.mpr notLater]
    | false =>
      obtain ⟨member, fixed⟩ := draining.settled inEpoch inTimestamp
      have unflagged : (entry.evaluate clock && !entry.pinned && !entry.listedWithdrawer) = false := by
        cases holds : entry.evaluate clock with
        | false => rfl
        | true => rcases fixed holds with fixed | fixed <;> simp [fixed]
      refine ⟨member, ?_, ?_⟩
      · rw [unflagged, inEpoch, Bool.false_and]
      · rw [unflagged, inTimestamp, Bool.false_and]

namespace Expiring

def withEpochs (state : Expiring) (set : ExpirySet ℕ) : Expiring :=
  { state with membership := { state.membership with byEpoch := set } }

def withTimestamps (state : Expiring) (set : ExpirySet ℤ) : Expiring :=
  { state with membership := { state.membership with byTimestamp := set } }

/-- What every pop of an expiry keeps, whether the entry stays a member or not. -/
structure Upkeep (shared : Shared) (clock : BlockClock) (start : HashMap Pubkey StakeEntry)
    (state : Expiring) : Prop where
  indexed : Indexed shared state.accounts state.membership
  clocked : state.membership.clock = some clock
  pinned : ∀ key entry, state.accounts.lookup key = some entry → entry.pinned = decide (key ∈ shared.pinned)
  flags : ∀ key entry, state.accounts.lookup key = some entry → entry.Draining clock
  records : ∀ key, (state.accounts.lookup key).map StakeEntry.written = (start.lookup key).map StakeEntry.written

theorem Upkeep.put (upkeep : Upkeep shared clock start state) {new : StakeEntry}
    (present : state.accounts.lookup key = some entry) (accounts : after.accounts = state.accounts.insert key new)
    (indexed : Indexed shared after.accounts after.membership) (clocked : after.membership.clock = some clock)
    (record : new.written = entry.written) (flags : new.Draining clock) : Upkeep shared clock start after := by
  have pinned : new.written.pinned = entry.written.pinned := by rw [record]
  refine ⟨indexed, clocked, fun other found here => ?_, fun other found here => ?_, fun other => ?_⟩
  · rw [accounts, HashMap.lookup_insert] at here
    split at here
    · next same =>
      cases here
      rw [same, ← upkeep.pinned key entry present]
      exact pinned
    · exact upkeep.pinned other found here
  · rw [accounts, HashMap.lookup_insert] at here
    split at here
    · cases here; exact flags
    · exact upkeep.flags other found here
  · rw [accounts, HashMap.lookup_insert]
    split
    · next same => rw [same, ← upkeep.records, present, Option.map_some, Option.map_some, record]
    · exact upkeep.records other

/-- The state inside the loops of an expiry that began with the entries of `start`. -/
structure Draining (shared : Shared) (clock : BlockClock) (start : HashMap Pubkey StakeEntry)
    (state : Expiring) : Prop where
  upkeep : Upkeep shared clock start state
  kept : ∀ key before entry, start.lookup key = some before → state.accounts.lookup key = some entry →
    entry.member → before.member
  reported : ∀ key lamports, (key, lamports) ∈ state.block.expired ↔ ∃ before entry,
    start.lookup key = some before ∧ state.accounts.lookup key = some entry ∧ before.member ∧
      entry.member = false ∧ before.lamports = lamports
  once : (state.block.expired.map Prod.fst).Nodup

/-- An entry changes its set and stays a member. -/
theorem Draining.move (draining : Draining shared clock start state) {new : StakeEntry}
    (present : state.accounts.lookup key = some entry) (accounts : after.accounts = state.accounts.insert key new)
    (upkeep : Upkeep shared clock start after) (member : new.member = entry.member)
    (expired : after.block.expired = state.block.expired) : Draining shared clock start after := by
  refine ⟨upkeep, fun other before found began here holds => ?_, fun other lamports => ?_, expired ▸ draining.once⟩
  · rw [accounts, HashMap.lookup_insert] at here
    split at here
    · next same =>
      cases here
      subst same
      exact draining.kept other before entry began present (member ▸ holds)
    · exact draining.kept other before found began here holds
  · rw [expired, draining.reported]
    refine exists_congr fun before => ?_
    rw [accounts, HashMap.lookup_insert]
    split
    · next same =>
      rw [same, present]
      simp only [Option.some.injEq, exists_and_left, exists_eq_left', member]
    · rfl

/-- A member leaves and is reported. -/
theorem Draining.report (draining : Draining shared clock start state) {new : StakeEntry}
    (present : state.accounts.lookup key = some entry) (accounts : after.accounts = state.accounts.insert key new)
    (upkeep : Upkeep shared clock start after) (was : entry.member) (left : new.member = false)
    (expired : after.block.expired = state.block.expired ++ [(key, entry.lamports)]) :
    Draining shared clock start after := by
  obtain ⟨before, began, record⟩ : ∃ before, start.lookup key = some before ∧ before.written = entry.written := by
    have same := draining.upkeep.records key
    rwa [present, Option.map_some, eq_comm, Option.map_eq_some_iff] at same
  have lamports : before.written.lamports = entry.written.lamports := by rw [record]
  have fresh : ∀ amount, (key, amount) ∉ state.block.expired := by
    intro amount member
    obtain ⟨_, found, -, here, -, out, -⟩ := (draining.reported key amount).mp member
    cases present.symm.trans here
    rw [was] at out
    contradiction
  refine ⟨upkeep, fun other before found began here holds => ?_, fun other amount => ?_, ?_⟩
  · rw [accounts, HashMap.lookup_insert] at here
    split at here
    · cases here
      rw [left] at holds
      contradiction
    · exact draining.kept other before found began here holds
  · rw [expired, List.mem_append, List.mem_singleton, Prod.mk.injEq, accounts, HashMap.lookup_insert]
    by_cases same : other = key
    · subst same
      rw [or_iff_right (fresh amount), and_iff_right rfl, if_pos rfl]
      constructor
      · rintro rfl
        exact ⟨before, new, began, rfl, draining.kept other before entry began present was, left, lamports⟩
      · rintro ⟨_, _, held, -, -, -, rfl⟩
        cases began.symm.trans held
        exact lamports
    · rw [or_iff_left fun equal => same equal.1, draining.reported, if_neg same]
  · rw [expired, List.map_append, List.nodup_append]
    refine ⟨draining.once, List.nodup_singleton _, ?_⟩
    rintro _ member _ last rfl
    obtain ⟨⟨pubkey, amount⟩, listed, same⟩ := List.mem_map.mp member
    have isKey : pubkey = key := same.trans (List.mem_singleton.mp last)
    exact fresh amount (isKey ▸ listed)

/-- A balance the sum covers is subtracted from it. -/
theorem leaveChecked_eq (covered : entry.lamports ≤ state.membership.total) :
    state.leaveChecked key entry = some (state.leave key entry) := if_neg (not_lt.mpr covered)

/-- A member that expires is dropped from the members and from the sum. -/
theorem Draining.leave (draining : Draining shared clock start state)
    (present : state.accounts.lookup key = some entry) (only : entry.lockupOnly) (member : entry.member)
    (left : StakeEntry) (record : left.written = entry.written) (noEpoch : left.inByEpoch = false)
    (noTimestamp : left.inByTimestamp = false) (out : left.evaluate clock = false) {byEpoch : ExpirySet ℕ}
    {byTimestamp : ExpirySet ℤ}
    (epochs : ∀ item, item ∈ byEpoch ↔ item.2 ≠ key ∧ item ∈ state.membership.byEpoch)
    (timestamps : ∀ item, item ∈ byTimestamp ↔ item.2 ≠ key ∧ item ∈ state.membership.byTimestamp)
    (epochsAscend : byEpoch.Ascending) (timestampsAscend : byTimestamp.Ascending) :
    Draining shared clock start (((state.leave key left).withEpochs byEpoch).withTimestamps byTimestamp) := by
  have lamports : left.written.lamports = entry.written.lamports := by rw [record]
  have pinned : left.written.pinned = entry.written.pinned := by rw [record]
  have notPinned : key ∉ shared.pinned := by
    intro listed
    have flag := draining.upkeep.pinned key entry present
    rw [decide_eq_true listed] at flag
    simp [StakeEntry.lockupOnly, flag] at only
  refine draining.report present rfl (draining.upkeep.put present rfl ?_ draining.upkeep.clocked ?_ ?_) member rfl ?_
  · refine draining.upkeep.indexed.put (fun item => ?_) (fun item => ?_) epochsAscend timestampsAscend
      (fun other differ => ?_) ?_ ?_
    · exact (epochs item).trans (or_iff_left fun flagged => absurd (noEpoch.symm.trans flagged.2) (by decide)).symm
    · exact (timestamps item).trans
        (or_iff_left fun flagged => absurd (noTimestamp.symm.trans flagged.2) (by decide)).symm
    · exact Finset.mem_erase.trans (and_iff_right differ)
    · exact iff_of_false (Finset.notMem_erase key _) (by simp [notPinned])
    · rw [present]
      change state.membership.total - left.lamports =
        state.membership.total - memberLamports key entry + memberLamports key { left with member := false }
      simp only [memberLamports, member, if_true, Bool.false_eq_true, if_false, add_zero]
      rw [show left.lamports = entry.lamports from lamports]
  · exact record
  · refine ⟨fun _ _ => ⟨out.symm, fun holds => ?_⟩, fun flagged => ?_, fun flagged => ?_⟩
    · exact absurd (out.symm.trans holds) (by decide)
    · exact absurd (noEpoch.symm.trans flagged) (by decide)
    · exact absurd (noTimestamp.symm.trans flagged) (by decide)
  · change (noteFlip true false _).expired = _
    rw [show entry.lamports = left.lamports from lamports.symm]
    rfl

/-- One epoch expiry, at the head of the set. -/
theorem Draining.popEpoch {epoch : ℕ} {rest : ExpirySet ℕ}
    (draining : Draining shared clock start (state.withEpochs ((epoch, key) :: rest)))
    (passed : epoch ≤ clock.epoch) :
    state.popEpochChecked clock key = some (state.popEpoch clock key) ∧
      Draining shared clock start ((state.popEpoch clock key).withEpochs rest) := by
  obtain ⟨entry, present, flagged, sameEpoch⟩ :=
    (draining.upkeep.indexed.epochs (epoch, key)).mp List.mem_cons_self
  change state.accounts.lookup key = some entry at present
  change entry.lockupEpoch = epoch at sameEpoch
  subst sameEpoch
  obtain ⟨only, member, noTimestamp⟩ := (draining.upkeep.flags key entry present).epoch flagged
  have covered : entry.lamports ≤ state.membership.total := draining.upkeep.indexed.covers present member
  have epochs : ∀ item, item ∈ rest ↔ item.2 ≠ key ∧ item ∈ (entry.lockupEpoch, key) :: rest := by
    intro item
    have dropped := draining.upkeep.indexed.epochs.drop draining.upkeep.indexed.epochsAscend present item
    rw [if_pos flagged] at dropped
    change item ∈ ExpirySet.remove (entry.lockupEpoch, key) ((entry.lockupEpoch, key) :: rest) ↔
      item.2 ≠ key ∧ item ∈ (entry.lockupEpoch, key) :: rest at dropped
    rwa [show ExpirySet.remove (entry.lockupEpoch, key) ((entry.lockupEpoch, key) :: rest) = rest from
      List.erase_cons_head _ _] at dropped
  have timestamps : ∀ item, item ∈ state.membership.byTimestamp ↔ item.2 ≠ key ∧ item ∈ state.membership.byTimestamp := by
    intro item
    have dropped := draining.upkeep.indexed.timestamps.drop draining.upkeep.indexed.timestampsAscend present item
    rwa [if_neg (by rw [noTimestamp]; decide)] at dropped
  have restAscend : ExpirySet.Ascending rest := (List.pairwise_cons.mp draining.upkeep.indexed.epochsAscend).2
  by_cases inForce : entry.lockupUnixTimestamp > clock.unixTimestamp
  · -- the timestamp still holds it
    have popped : state.popEpoch clock key = { state with
        membership := { state.membership with
          byTimestamp := state.membership.byTimestamp.insert (entry.lockupUnixTimestamp, key) }
        accounts := state.accounts.insert key { entry with inByEpoch := false, inByTimestamp := true } } := by
      rw [Expiring.popEpoch, present]
      exact if_pos inForce
    refine ⟨?_, ?_⟩
    · rw [popEpochChecked, present]
      exact if_pos inForce
    · rw [popped]
      refine draining.move present rfl (draining.upkeep.put present rfl ?_ draining.upkeep.clocked ?_ ?_) rfl rfl
      · refine draining.upkeep.indexed.put (fun item => ?_) (fun item => ?_) restAscend
          (ExpirySet.Ascending.insert draining.upkeep.indexed.timestampsAscend) (fun _ _ => Iff.rfl) ?_ ?_
        · exact (epochs item).trans (or_iff_left fun flagged => absurd flagged.2 Bool.false_ne_true).symm
        · refine ExpirySet.mem_insert.trans ?_
          rw [or_comm, and_iff_left rfl]
          exact or_congr_left (timestamps item)
        · refine (draining.upkeep.indexed.members key).trans (or_congr_right ⟨?_, fun holds => ⟨entry, present, holds⟩⟩)
          rintro ⟨found, here, holds⟩
          cases present.symm.trans here
          exact holds
        · change state.membership.total = state.membership.total -
            (state.accounts.lookup key).elim 0 (memberLamports key) + memberLamports key entry
          rw [present]
          exact (sub_add_cancel _ _).symm
      · rfl
      · exact ⟨fun _ inSet => absurd inSet.symm Bool.false_ne_true, fun inSet => absurd inSet Bool.false_ne_true,
          fun _ => ⟨only, member, passed⟩⟩
  · have popped : state.popEpoch clock key = state.leave key { entry with inByEpoch := false } := by
      rw [Expiring.popEpoch, present]
      exact if_neg inForce
    have out : StakeEntry.evaluate { entry with inByEpoch := false } clock = false := by
      have still : StakeEntry.lockupOnly { entry with inByEpoch := false } := only
      rw [evaluate_lockupOnly still]
      simp only [Bool.or_eq_false_iff, decide_eq_false_iff_not]
      omega
    refine ⟨?_, ?_⟩
    · rw [popEpochChecked, present]
      refine (if_neg inForce).trans ?_
      rw [popped]
      exact leaveChecked_eq covered
    · rw [popped]
      exact draining.leave present only member { entry with inByEpoch := false } rfl rfl noTimestamp out epochs
        timestamps restAscend draining.upkeep.indexed.timestampsAscend

/-- One timestamp expiry, at the head of the set. -/
theorem Draining.popTimestamp {unixTimestamp : ℤ} {rest : ExpirySet ℤ}
    (draining : Draining shared clock start (state.withTimestamps ((unixTimestamp, key) :: rest)))
    (passed : unixTimestamp ≤ clock.unixTimestamp) :
    state.popTimestampChecked key = some (state.popTimestamp key) ∧
      Draining shared clock start ((state.popTimestamp key).withTimestamps rest) := by
  obtain ⟨entry, present, flagged, sameTimestamp⟩ :=
    (draining.upkeep.indexed.timestamps (unixTimestamp, key)).mp List.mem_cons_self
  change state.accounts.lookup key = some entry at present
  change entry.lockupUnixTimestamp = unixTimestamp at sameTimestamp
  subst sameTimestamp
  have flags := draining.upkeep.flags key entry present
  obtain ⟨only, member, notLater⟩ := flags.timestamp flagged
  have covered : entry.lamports ≤ state.membership.total := draining.upkeep.indexed.covers present member
  have noEpoch : entry.inByEpoch = false := by
    by_contra inEpoch
    rw [Bool.not_eq_false] at inEpoch
    exact absurd ((flags.epoch inEpoch).2.2.symm.trans flagged) (by decide)
  have timestamps : ∀ item, item ∈ rest ↔ item.2 ≠ key ∧ item ∈ (entry.lockupUnixTimestamp, key) :: rest := by
    intro item
    have dropped := draining.upkeep.indexed.timestamps.drop draining.upkeep.indexed.timestampsAscend present item
    rw [if_pos flagged] at dropped
    change item ∈ ExpirySet.remove (entry.lockupUnixTimestamp, key) ((entry.lockupUnixTimestamp, key) :: rest) ↔
      item.2 ≠ key ∧ item ∈ (entry.lockupUnixTimestamp, key) :: rest at dropped
    rwa [show ExpirySet.remove (entry.lockupUnixTimestamp, key) ((entry.lockupUnixTimestamp, key) :: rest) = rest from
      List.erase_cons_head _ _] at dropped
  have epochs : ∀ item, item ∈ state.membership.byEpoch ↔ item.2 ≠ key ∧ item ∈ state.membership.byEpoch := by
    intro item
    have dropped := draining.upkeep.indexed.epochs.drop draining.upkeep.indexed.epochsAscend present item
    rwa [if_neg (by rw [noEpoch]; decide)] at dropped
  have popped : state.popTimestamp key = state.leave key { entry with inByTimestamp := false } := by
    rw [Expiring.popTimestamp, present]
  have out : StakeEntry.evaluate { entry with inByTimestamp := false } clock = false := by
    have still : StakeEntry.lockupOnly { entry with inByTimestamp := false } := only
    rw [evaluate_lockupOnly still]
    simp only [Bool.or_eq_false_iff, decide_eq_false_iff_not]
    omega
  refine ⟨?_, ?_⟩
  · rw [popTimestampChecked, present, popped]
    exact leaveChecked_eq covered
  · rw [popped]
    exact draining.leave present only member { entry with inByTimestamp := false } rfl noEpoch rfl out epochs timestamps
      draining.upkeep.indexed.epochsAscend (List.pairwise_cons.mp draining.upkeep.indexed.timestampsAscend).2

/-- The epoch loop drains its set down to the epochs still in force. -/
theorem Draining.expireEpochs {set : ExpirySet ℕ} (draining : Draining shared clock start (state.withEpochs set)) :
    state.expireEpochsChecked clock set = some (state.expireEpochs clock set) ∧
      Draining shared clock start (state.expireEpochs clock set) ∧
      ∀ item ∈ (state.expireEpochs clock set).membership.byEpoch, item.1 > clock.epoch := by
  induction set generalizing state with
  | nil => exact ⟨rfl, draining, fun item member => absurd member List.not_mem_nil⟩
  | cons head rest ih =>
    obtain ⟨epoch, key⟩ := head
    rw [expireEpochsChecked, Expiring.expireEpochs]
    by_cases later : epoch > clock.epoch
    · rw [if_pos later, if_pos later]
      refine ⟨rfl, draining, fun item member => ?_⟩
      rcases List.mem_cons.mp member with rfl | member
      · exact later
      · have after := (List.pairwise_cons.mp draining.upkeep.indexed.epochsAscend).1 item member
        rcases Prod.Lex.lt_iff.mp after with lt | ⟨same, -⟩
        · exact later.trans lt
        · exact later.trans_eq same
    · obtain ⟨checked, popped⟩ := draining.popEpoch (not_lt.mp later)
      rw [if_neg later, if_neg later, checked]
      exact ih popped

/-- The timestamp loop drains its set down to the timestamps still in force. -/
theorem Draining.expireTimestamps {set : ExpirySet ℤ}
    (draining : Draining shared clock start (state.withTimestamps set)) :
    state.expireTimestampsChecked clock set = some (state.expireTimestamps clock set) ∧
      Draining shared clock start (state.expireTimestamps clock set) ∧
      (state.expireTimestamps clock set).membership.byEpoch = state.membership.byEpoch ∧
      ∀ item ∈ (state.expireTimestamps clock set).membership.byTimestamp, item.1 > clock.unixTimestamp := by
  induction set generalizing state with
  | nil => exact ⟨rfl, draining, rfl, fun item member => absurd member List.not_mem_nil⟩
  | cons head rest ih =>
    obtain ⟨unixTimestamp, key⟩ := head
    rw [expireTimestampsChecked, Expiring.expireTimestamps]
    by_cases later : unixTimestamp > clock.unixTimestamp
    · rw [if_pos later, if_pos later]
      refine ⟨rfl, draining, rfl, fun item member => ?_⟩
      rcases List.mem_cons.mp member with rfl | member
      · exact later
      · have after := (List.pairwise_cons.mp draining.upkeep.indexed.timestampsAscend).1 item member
        rcases Prod.Lex.lt_iff.mp after with lt | ⟨same, -⟩
        · exact later.trans lt
        · exact later.trans_eq same
    · obtain ⟨checked, popped⟩ := draining.popTimestamp (not_lt.mp later)
      have sameEpochs : (state.popTimestamp key).membership.byEpoch = state.membership.byEpoch := by
        unfold Expiring.popTimestamp
        split <;> rfl
      rw [if_neg later, if_neg later, checked]
      obtain ⟨ran, drained, epochs, timestamps⟩ := ih popped
      exact ⟨ran, drained, epochs.trans sameEpochs, timestamps⟩

/-- A newer clock expires what it has passed: no step fails, what is left is placed under it, and the block
reports exactly the members that lost their hold. -/
theorem expire_placed {older : BlockClock} {membership : Membership} {block : StakeBlock}
    (placed : Placed shared older start membership) (epochs : older.epoch ≤ clock.epoch)
    (timestamps : older.unixTimestamp ≤ clock.unixTimestamp) (fresh : block.expired = []) :
    let state : Expiring := ⟨{ membership with clock := some clock }, start, block⟩
    state.expireChecked clock = some (state.expire clock) ∧
      Placed shared clock (state.expire clock).accounts (state.expire clock).membership ∧
      (∀ key, ((state.expire clock).accounts.lookup key).map StakeEntry.written =
        (start.lookup key).map StakeEntry.written) ∧
      (∀ key lamports, (key, lamports) ∈ (state.expire clock).block.expired ↔
        ∃ before, start.lookup key = some before ∧ before.member ∧ before.evaluate clock = false ∧
          before.lamports = lamports) ∧
      ((state.expire clock).block.expired.map Prod.fst).Nodup := by
  intro state
  have begin : Draining shared clock start (state.withEpochs state.membership.byEpoch) := by
    refine ⟨⟨⟨placed.indexed.epochs, placed.indexed.timestamps, placed.indexed.epochsAscend,
        placed.indexed.timestampsAscend, placed.indexed.members, placed.indexed.total⟩, rfl, placed.pinned,
      fun key entry present => (placed.flags key entry present).draining epochs timestamps, fun _ => rfl⟩,
      fun key before entry began here holds => ?_, fun key lamports => ?_, ?_⟩
    · cases began.symm.trans here
      exact holds
    · change (key, lamports) ∈ block.expired ↔ _
      rw [fresh]
      refine iff_of_false List.not_mem_nil ?_
      rintro ⟨before, entry, began, here, was, out, -⟩
      cases began.symm.trans here
      exact absurd (was.symm.trans out) (by decide)
    · change (block.expired.map Prod.fst).Nodup
      rw [fresh]
      exact List.nodup_nil
  obtain ⟨ranEpochs, middle, epochsLeft⟩ := begin.expireEpochs
  have between : Draining shared clock start ((state.expireEpochs clock state.membership.byEpoch).withTimestamps
      (state.expireEpochs clock state.membership.byEpoch).membership.byTimestamp) := middle
  obtain ⟨ranTimestamps, final, sameEpochs, timestampsLeft⟩ := between.expireTimestamps
  have flags : ∀ key entry, (state.expire clock).accounts.lookup key = some entry → entry.PlacedAt clock := by
    intro key entry present
    refine (final.upkeep.flags key entry present).placedAt (fun flagged => ?_) fun flagged => ?_
    · refine epochsLeft (entry.lockupEpoch, key) ?_
      rw [← sameEpochs]
      exact (final.upkeep.indexed.epochs _).mpr ⟨entry, present, flagged, rfl⟩
    · exact timestampsLeft (entry.lockupUnixTimestamp, key)
        ((final.upkeep.indexed.timestamps _).mpr ⟨entry, present, flagged, rfl⟩)
  refine ⟨?_, ⟨final.upkeep.indexed, final.upkeep.clocked, flags, final.upkeep.pinned⟩, final.upkeep.records,
    fun key lamports => ?_, final.once⟩
  · rw [expireChecked, ranEpochs]
    exact ranTimestamps
  · rw [show state.expire clock = (state.expireEpochs clock state.membership.byEpoch).expireTimestamps clock
      (state.expireEpochs clock state.membership.byEpoch).membership.byTimestamp from rfl, final.reported]
    refine exists_congr fun before => ?_
    constructor
    · rintro ⟨entry, began, here, was, out, amount⟩
      refine ⟨began, was, ?_, amount⟩
      have records := final.upkeep.records key
      rw [here, began, Option.map_some, Option.map_some, Option.some.injEq] at records
      rw [← out, (flags key entry here).member]
      change before.written.evaluate clock = entry.written.evaluate clock
      rw [records]
    · rintro ⟨began, was, out, amount⟩
      have records := final.upkeep.records key
      rw [began, Option.map_some, Option.map_eq_some_iff] at records
      obtain ⟨entry, here, record⟩ := records
      refine ⟨entry, began, here, was, ?_, amount⟩
      rw [(flags key entry here).member, ← out]
      change entry.written.evaluate clock = before.written.evaluate clock
      rw [record]

end Expiring

end Cloudbreak.Model.NonCirculating
