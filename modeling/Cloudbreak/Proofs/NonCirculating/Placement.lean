import Cloudbreak.Model.NonCirculating.Feed
import Cloudbreak.Proofs.NonCirculating.Seeding

/-! # Placed entries

The member set, the two expiry sets and the running sum repeat what the flags of the entries say. The
flags of a placed entry are those its evaluation against the clock gives. Replacing one entry, with its old
placement dropped and its new one added, keeps both facts.
-/

namespace Cloudbreak.Model.NonCirculating

open Cloudbreak.ToMathlib

namespace ExpirySet

variable {κ : Type} [LinearOrder κ] {set : ExpirySet κ} {item other : κ × Pubkey}

/-- Strictly ascending by expiry, then by pubkey. -/
def Ascending (set : ExpirySet κ) : Prop := set.Pairwise fun a b => toLex a < toLex b

theorem mem_insert : other ∈ insert item set ↔ other = item ∨ other ∈ set := by
  unfold insert
  split
  · next present =>
    constructor
    · exact Or.inr
    · rintro (rfl | member)
      · exact present
      · exact member
  · exact List.mem_orderedInsert _

theorem Ascending.insert (ascending : Ascending set) : Ascending (ExpirySet.insert item set) := by
  unfold ExpirySet.insert
  split
  · exact ascending
  · next absent =>
    have before (a b : κ × Pubkey) : (a.1 < b.1 ∨ a.1 = b.1 ∧ a.2 ≤ b.2) ↔ toLex a ≤ toLex b := Prod.Lex.le_iff.symm
    have : Std.Total fun a b : κ × Pubkey => a.1 < b.1 ∨ a.1 = b.1 ∧ a.2 ≤ b.2 :=
      ⟨fun a b => by rw [before, before]; exact le_total _ _⟩
    have : IsTrans _ fun a b : κ × Pubkey => a.1 < b.1 ∨ a.1 = b.1 ∧ a.2 ≤ b.2 :=
      ⟨fun a b c first second => by rw [before] at first second ⊢; exact first.trans second⟩
    have weak : set.Pairwise fun a b => a.1 < b.1 ∨ a.1 = b.1 ∧ a.2 ≤ b.2 :=
      ascending.imp fun {a b} lt => (before a b).mpr lt.le
    have sorted := weak.orderedInsert item set
    have distinct : (set.orderedInsert (fun a b => a.1 < b.1 ∨ a.1 = b.1 ∧ a.2 ≤ b.2) item).Nodup :=
      (List.perm_orderedInsert _ item set).nodup_iff.mpr
        (List.nodup_cons.mpr ⟨absent, ascending.imp fun {a b} lt same => lt.ne (congrArg toLex same)⟩)
    exact (sorted.and distinct).imp fun {a b} both =>
      lt_of_le_of_ne ((before a b).mp both.1) fun same => both.2 (toLex.injective same)

theorem Ascending.nodup (ascending : Ascending set) : set.Nodup :=
  List.Pairwise.imp (fun {a b} lt (same : a = b) => lt.ne (congrArg toLex same)) ascending

theorem Ascending.remove (ascending : Ascending set) : Ascending (ExpirySet.remove item set) :=
  List.Pairwise.sublist List.erase_sublist ascending

private theorem Ascending.mem_remove (ascending : Ascending set) :
    other ∈ ExpirySet.remove item set ↔ other ≠ item ∧ other ∈ set :=
  ascending.nodup.mem_erase_iff

end ExpirySet

variable {shared : Shared} {clock : BlockClock} {accounts : HashMap Pubkey StakeEntry}
  {membership after : Membership} {key : Pubkey} {entry : StakeEntry}

/-- The set lists the entries with a flag, each under its expiry. -/
def ExpirySet.Lists {κ : Type} (set : ExpirySet κ) (flag : StakeEntry → Bool) (expiry : StakeEntry → κ)
    (accounts : HashMap Pubkey StakeEntry) : Prop :=
  ∀ item, item ∈ set ↔ ∃ entry, accounts.lookup item.2 = some entry ∧ flag entry ∧ expiry entry = item.1

section Lists

variable {κ : Type} {set next : ExpirySet κ} {flag : StakeEntry → Bool} {expiry : StakeEntry → κ}

/-- One entry is replaced, and the set follows. -/
theorem ExpirySet.Lists.put (lists : set.Lists flag expiry accounts)
    (follows : ∀ item, item ∈ next ↔ item.2 ≠ key ∧ item ∈ set ∨ item = (expiry entry, key) ∧ flag entry) :
    next.Lists flag expiry (accounts.insert key entry) := by
  rintro ⟨expires, pubkey⟩
  rw [follows, HashMap.lookup_insert]
  by_cases same : pubkey = key
  · subst same
    rw [if_pos rfl]
    constructor
    · rintro (⟨differ, -⟩ | ⟨equal, flagged⟩)
      · exact absurd rfl differ
      · exact ⟨entry, rfl, flagged, (congrArg Prod.fst equal).symm⟩
    · rintro ⟨found, present, flagged, rfl⟩
      cases present
      exact Or.inr ⟨rfl, flagged⟩
  · rw [if_neg same, ← lists]
    constructor
    · rintro (⟨-, member⟩ | ⟨equal, -⟩)
      · exact member
      · exact absurd (congrArg Prod.snd equal) same
    · exact fun member => Or.inl ⟨same, member⟩

/-- Without its entry's item a set lists the entries of the other keys. -/
theorem ExpirySet.Lists.drop [LinearOrder κ] (lists : set.Lists flag expiry accounts) (ascending : set.Ascending)
    (present : accounts.lookup key = some entry) (item : κ × Pubkey) :
    item ∈ (if flag entry then set.remove (expiry entry, key) else set) ↔ item.2 ≠ key ∧ item ∈ set := by
  have here : item ∈ set → item.2 = key → flag entry ∧ expiry entry = item.1 := by
    rintro member rfl
    obtain ⟨found, same, listed⟩ := (lists item).mp member
    cases present.symm.trans same
    exact listed
  split
  · rw [ascending.mem_remove]
    refine and_congr_left fun member => ?_
    refine ⟨fun differ same => differ (Prod.ext (here member same).2.symm same), fun differ same => ?_⟩
    exact differ (congrArg Prod.snd same)
  · next unplaced => exact ⟨fun member => ⟨fun same => unplaced (here member same).1, member⟩, And.right⟩

theorem ExpirySet.Lists.absent (lists : set.Lists flag expiry accounts) (absent : accounts.lookup key = none)
    (item : κ × Pubkey) : item ∈ set ↔ item.2 ≠ key ∧ item ∈ set := by
  refine ⟨fun member => ⟨?_, member⟩, And.right⟩
  rintro rfl
  obtain ⟨found, present, -⟩ := (lists item).mp member
  rw [absent] at present
  contradiction

end Lists

/-- What an entry adds to the running sum. -/
def memberLamports (_ : Pubkey) (entry : StakeEntry) : ℤ := if entry.member then entry.lamports else 0

/-- The membership side repeats the flags of the entries. -/
structure Indexed (shared : Shared) (accounts : HashMap Pubkey StakeEntry) (membership : Membership) : Prop where
  epochs : membership.byEpoch.Lists StakeEntry.inByEpoch StakeEntry.lockupEpoch accounts
  timestamps : membership.byTimestamp.Lists StakeEntry.inByTimestamp StakeEntry.lockupUnixTimestamp accounts
  epochsAscend : membership.byEpoch.Ascending
  timestampsAscend : membership.byTimestamp.Ascending
  members : ∀ key, key ∈ membership.members ↔
    key ∈ shared.pinned ∨ ∃ entry, accounts.lookup key = some entry ∧ entry.member
  total : membership.total = accounts.sum memberLamports

/-- The running sum covers every member. -/
theorem Indexed.covers (indexed : Indexed shared accounts membership) (present : accounts.lookup key = some entry)
    (member : entry.member) : entry.lamports ≤ membership.total := by
  have nonneg : ∀ key entry, 0 ≤ memberLamports key entry := by
    intro key entry
    unfold memberLamports
    split
    · exact Int.natCast_nonneg _
    · exact le_rfl
  have bound := HashMap.le_sum nonneg present
  rw [memberLamports, if_pos member] at bound
  rw [indexed.total]
  exact bound

/-- One entry is replaced, and the membership side follows. -/
theorem Indexed.put (indexed : Indexed shared accounts membership)
    (epochs : ∀ item, item ∈ after.byEpoch ↔
      item.2 ≠ key ∧ item ∈ membership.byEpoch ∨ item = (entry.lockupEpoch, key) ∧ entry.inByEpoch)
    (timestamps : ∀ item, item ∈ after.byTimestamp ↔
      item.2 ≠ key ∧ item ∈ membership.byTimestamp ∨ item = (entry.lockupUnixTimestamp, key) ∧ entry.inByTimestamp)
    (epochsAscend : after.byEpoch.Ascending) (timestampsAscend : after.byTimestamp.Ascending)
    (others : ∀ other, other ≠ key → (other ∈ after.members ↔ other ∈ membership.members))
    (here : key ∈ after.members ↔ key ∈ shared.pinned ∨ entry.member)
    (total : after.total =
      membership.total - (accounts.lookup key).elim 0 (memberLamports key) + memberLamports key entry) :
    Indexed shared (accounts.insert key entry) after where
  epochs := indexed.epochs.put epochs
  timestamps := indexed.timestamps.put timestamps
  epochsAscend := epochsAscend
  timestampsAscend := timestampsAscend
  members other := by
    rw [HashMap.lookup_insert]
    by_cases same : other = key
    · simp [same, here]
    · simp [same, others other same, indexed.members]
  total := by rw [total, HashMap.sum_insert, indexed.total]

/-- The flags are those the evaluation against the clock gives. -/
structure StakeEntry.PlacedAt (clock : BlockClock) (entry : StakeEntry) : Prop where
  member : entry.member = entry.evaluate clock
  inByEpoch : entry.inByEpoch =
    (entry.evaluate clock && !entry.pinned && !entry.listedWithdrawer && decide (entry.lockupEpoch > clock.epoch))
  inByTimestamp : entry.inByTimestamp =
    (entry.evaluate clock && !entry.pinned && !entry.listedWithdrawer && !decide (entry.lockupEpoch > clock.epoch))

/-- The entries are placed under the clock, pinned exactly at the pinned pubkeys, and indexed. -/
structure Placed (shared : Shared) (clock : BlockClock) (accounts : HashMap Pubkey StakeEntry)
    (membership : Membership) : Prop where
  indexed : Indexed shared accounts membership
  clocked : membership.clock = some clock
  flags : ∀ key entry, accounts.lookup key = some entry → entry.PlacedAt clock
  pinned : ∀ key entry, accounts.lookup key = some entry → entry.pinned = decide (key ∈ shared.pinned)

/-- Dropping the placement of the entry under a key leaves the placements of the other keys. -/
theorem Indexed.unplaced (indexed : Indexed shared accounts membership) (key : Pubkey) :
    let unplaced := (accounts.lookup key).elim membership (membership.unplace key)
    (∀ item, item ∈ unplaced.byEpoch ↔ item.2 ≠ key ∧ item ∈ membership.byEpoch) ∧
      (∀ item, item ∈ unplaced.byTimestamp ↔ item.2 ≠ key ∧ item ∈ membership.byTimestamp) ∧
      unplaced.byEpoch.Ascending ∧ unplaced.byTimestamp.Ascending ∧ unplaced.members = membership.members ∧
      unplaced.clock = membership.clock ∧
      unplaced.total = membership.total - (accounts.lookup key).elim 0 (memberLamports key) := by
  cases found : accounts.lookup key with
  | none =>
    exact ⟨indexed.epochs.absent found, indexed.timestamps.absent found, indexed.epochsAscend,
      indexed.timestampsAscend, rfl, rfl, (sub_zero _).symm⟩
  | some old =>
    refine ⟨indexed.epochs.drop indexed.epochsAscend found, indexed.timestamps.drop indexed.timestampsAscend found,
      ?_, ?_, rfl, rfl, ?_⟩
    · change (if old.inByEpoch then membership.byEpoch.remove (old.lockupEpoch, key)
        else membership.byEpoch).Ascending
      split
      · exact indexed.epochsAscend.remove
      · exact indexed.epochsAscend
    · change (if old.inByTimestamp then membership.byTimestamp.remove (old.lockupUnixTimestamp, key)
        else membership.byTimestamp).Ascending
      split
      · exact indexed.timestampsAscend.remove
      · exact indexed.timestampsAscend
    · change (if old.member then membership.total - old.lamports else membership.total) =
        membership.total - memberLamports key old
      unfold memberLamports
      split
      · rfl
      · rw [sub_zero]

theorem placedAt_placeAt (membership : Membership) : (membership.placeAt clock key entry).2.1.PlacedAt clock :=
  ⟨rfl, rfl, rfl⟩

/-- An entry is placed anew: the old placement is dropped and the entry is evaluated. -/
theorem Indexed.place (indexed : Indexed shared accounts membership) (clock : BlockClock)
    (pinned : entry.pinned = decide (key ∈ shared.pinned)) :
    let placed := ((accounts.lookup key).elim membership (membership.unplace key)).placeAt clock key entry
    Indexed shared (accounts.insert key placed.2.1) placed.1 := by
  obtain ⟨epochs, timestamps, epochsAscend, timestampsAscend, members, -, total⟩ := indexed.unplaced key
  generalize (accounts.lookup key).elim membership (membership.unplace key) = unplaced at *
  refine indexed.put (fun item => ?_) (fun item => ?_) ?_ ?_ (fun other differ => ?_) ?_ ?_
  · simp only [Membership.placeAt]
    split
    · next placed => rw [ExpirySet.mem_insert, epochs, or_comm, and_iff_left placed]
    · next skipped => rw [epochs, or_iff_left fun flagged => skipped flagged.2]
  · simp only [Membership.placeAt]
    split
    · next placed => rw [ExpirySet.mem_insert, timestamps, or_comm, and_iff_left placed]
    · next skipped => rw [timestamps, or_iff_left fun flagged => skipped flagged.2]
  · simp only [Membership.placeAt]
    split
    · exact epochsAscend.insert
    · exact epochsAscend
  · simp only [Membership.placeAt]
    split
    · exact timestampsAscend.insert
    · exact timestampsAscend
  · simp only [Membership.placeAt]
    split
    · rw [Finset.mem_insert, or_iff_right differ, members]
    · rw [Finset.mem_erase, and_iff_right differ, members]
  · simp only [Membership.placeAt]
    split
    · next member => simp [member]
    · next left =>
      have notPinned : key ∉ shared.pinned := fun listed => left (by simp [StakeEntry.evaluate, pinned, listed])
      simp [left, notPinned]
  · simp only [Membership.placeAt, memberLamports, total]
    split
    · rfl
    · rw [add_zero]

theorem Placed.put (placed : Placed shared clock accounts membership)
    (pinned : entry.pinned = decide (key ∈ shared.pinned)) :
    let next := ((accounts.lookup key).elim membership (membership.unplace key)).place key entry
    Placed shared clock (accounts.insert key next.2.1) next.1 := by
  have clocked := (placed.indexed.unplaced key).2.2.2.2.2.1.trans placed.clocked
  have placing : ((accounts.lookup key).elim membership (membership.unplace key)).place key entry =
      ((accounts.lookup key).elim membership (membership.unplace key)).placeAt clock key entry := by
    rw [Membership.place, clocked]
  dsimp only
  rw [placing]
  refine ⟨placed.indexed.place clock pinned, clocked, fun other found present => ?_, fun other found present => ?_⟩
  · rw [HashMap.lookup_insert] at present
    split at present
    · cases present
      exact placedAt_placeAt _
    · exact placed.flags other found present
  · rw [HashMap.lookup_insert] at present
    split at present
    · next same =>
      cases present
      rw [same]
      exact pinned
    · exact placed.pinned other found present

end Cloudbreak.Model.NonCirculating
