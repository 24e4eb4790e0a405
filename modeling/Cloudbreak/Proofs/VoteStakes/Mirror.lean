import Cloudbreak.Model.VoteStakes.EpochStakes
import Cloudbreak.Proofs.Filters.PatternId
import Cloudbreak.ToMathlib.Run

/-! # When a poll mirrors the last persisted stakes

Rows of voters that left within an epoch are never deleted, and a poll sees a change within an epoch
only through the total stake. The epoch column is signed, so epochs from 2^63 on are ordered below all
earlier ones. And the upsert is one statement, so a set of more than 13107 voters is not stored at all.
After a poll in any reachable state whose persists were stored, the snapshot is the last persisted data
exactly when none of the first three got in the way.
-/

namespace Cloudbreak.Model.VoteStakes

open Cloudbreak.ToMathlib
open Filters (U64 toI64 toU64 toU64_toI64)

def VoterStakeRow.entry (voter : VoterStakeRow) : VoterEntry :=
  ⟨voter.nodePubkey, voter.activatedStake, voter.inEpochSet⟩

/-- The snapshot that holds the epoch and the voters of persisted data. -/
def SnapshotStakeData.snapshot (data : SnapshotStakeData) : StakesSnapshot :=
  ⟨data.epoch, HashMap.insertAll VoterStakeRow.votePubkey VoterStakeRow.entry ∅ data.voters⟩

/-- The snapshot has the epoch of the data and exactly its voters. -/
def Mirrors (snapshot : StakesSnapshot) (data : SnapshotStakeData) : Prop :=
  snapshot.epoch = data.epoch ∧ ∀ voter, snapshot.voters.lookup voter = data.snapshot.voters.lookup voter

/-- A row of the data's epoch whose voter the data does not name. -/
def IsStale (table : EpochStakes) (data : SnapshotStakeData) (voter : Pubkey) (row : EpochStakeRow) : Prop :=
  table.lookup (toI64 data.epoch, voter) = some row ∧ voter ∉ data.voters.map VoterStakeRow.votePubkey

/-- The epoch of the data is the highest of the signed column; and either no voter left within the epoch
and the poll sees a newer epoch or another total, or the snapshot is the data already and the rows that
were left behind carry no stake. -/
def Visible (system : StakesSystem) (data : SnapshotStakeData) : Prop :=
  maxEpoch system.table = some (toI64 data.epoch) ∧
    ((∀ voter row, ¬ IsStale system.table data voter row) ∧
        (system.snapshot.epoch < data.epoch ∨ system.snapshot.totalStake ≠ data.snapshot.totalStake) ∨
      Mirrors system.snapshot data ∧
        ∀ voter row, IsStale system.table data voter row → toU64 row.activatedStake = 0)

/-- Epochs do not decrease, each set of voters is nonempty and distinct, and one statement can bind it. -/
def Persisting (events : List StakesEvent) (_ : StakesSystem) (event : StakesEvent) : Prop :=
  ∀ data ∈ event.persisted, data.voters ≠ [] ∧ (data.voters.map VoterStakeRow.votePubkey).Nodup ∧
    data.params ≤ maxBindParams ∧ ∀ last ∈ lastPersisted events, last.epoch ≤ data.epoch

abbrev StakesRun := Run StakesSystem.new StakesSystem.step Persisting

/-! ## Loading -/

theorem maxEpoch_eq_some {table : EpochStakes} {epoch : ℤ} :
    maxEpoch table = some epoch ↔ (∃ voter row, table.lookup (epoch, voter) = some row) ∧
      ∀ key row, table.lookup key = some row → key.1 ≤ epoch := by
  rw [maxEpoch, List.max?_eq_some_iff]
  simp only [List.mem_map]
  constructor
  · rintro ⟨⟨⟨⟨_, voter⟩, row⟩, member, rfl⟩, highest⟩
    refine ⟨⟨voter, row, HashMap.mem_toList.mp member⟩, ?_⟩
    intro key row present
    exact highest _ ⟨(key, row), HashMap.mem_toList.mpr present, rfl⟩
  · rintro ⟨⟨voter, row, present⟩, highest⟩
    refine ⟨⟨((epoch, voter), row), HashMap.mem_toList.mpr present, rfl⟩, ?_⟩
    rintro - ⟨⟨key, row⟩, member, rfl⟩
    exact highest key row (HashMap.mem_toList.mp member)

private theorem maxEpoch_eq_none {table : EpochStakes} (empty : maxEpoch table = none) (key : ℤ × Pubkey) :
    table.lookup key = none := by
  rw [maxEpoch, List.max?_eq_none_iff, List.map_eq_nil_iff] at empty
  cases present : table.lookup key with
  | none => rfl
  | some row =>
    have member := HashMap.mem_toList.mpr present
    rw [empty] at member
    exact absurd member (by simp)

private theorem nodup_epochRows (table : EpochStakes) (epoch : ℤ) :
    ((epochRows table epoch).map fun row => row.1.2).Nodup := by
  have distinct := (List.Nodup.of_map _ (HashMap.nodup_toList table)).filter fun row => decide (row.1.1 = epoch)
  refine List.Nodup.map_on ?_ distinct
  rintro ⟨⟨_, voter⟩, row⟩ member ⟨⟨_, _⟩, row'⟩ member' rfl
  obtain ⟨listed, rfl⟩ := by simpa using List.mem_filter.mp member
  obtain ⟨listed', same⟩ := by simpa using List.mem_filter.mp member'
  subst same
  rw [HashMap.mem_toList] at listed listed'
  rw [Option.some.inj (listed.symm.trans listed')]

/-- What a load returns is the rows of the highest epoch. -/
theorem loadLatestStakes_eq {table : EpochStakes} {epoch : ℤ} (highest : maxEpoch table = some epoch) :
    ∃ snapshot, loadLatestStakes table = some snapshot ∧ snapshot.epoch = toU64 epoch ∧
      ∀ voter, snapshot.voters.lookup voter = (table.lookup (epoch, voter)).map EpochStakeRow.entry := by
  refine ⟨_, by rw [loadLatestStakes, highest]; rfl, rfl, ?_⟩
  intro voter
  apply Option.ext
  intro entry
  rw [HashMap.lookup_insertAll (nodup_epochRows table epoch), Option.map_eq_some_iff]
  constructor
  · rintro ⟨⟨⟨_, _⟩, row⟩, member, rfl, rfl⟩
    obtain ⟨listed, rfl⟩ := by simpa using List.mem_filter.mp member
    exact ⟨row, HashMap.mem_toList.mp listed, rfl⟩
  · rintro ⟨row, present, rfl⟩
    refine ⟨((epoch, voter), row), List.mem_filter.mpr ⟨HashMap.mem_toList.mpr present, ?_⟩, rfl, rfl⟩
    exact decide_eq_true rfl

private theorem loadLatestStakes_none {table : EpochStakes} (empty : maxEpoch table = none) :
    loadLatestStakes table = none := by
  rw [loadLatestStakes, empty]
  rfl

private theorem entry_stored (voter : VoterStakeRow) : voter.stored.entry = voter.entry := by
  rw [EpochStakeRow.entry, VoterStakeRow.stored, VoterStakeRow.entry, toU64_toI64]

/-! ## The table after a persist -/

private theorem toI64_injective {first second : U64} (same : toI64 first = toI64 second) : first = second := by
  rw [← toU64_toI64 first, same, toU64_toI64]

theorem nodup_keys {data : SnapshotStakeData} (distinct : (data.voters.map VoterStakeRow.votePubkey).Nodup) :
    (data.voters.map (VoterStakeRow.key data.epoch)).Nodup := by
  have pairs := List.Nodup.map (f := fun voter : Pubkey => (toI64 data.epoch, voter))
    (fun _ _ same => (Prod.mk.inj same).2) distinct
  rwa [List.map_map] at pairs

/-- Only the first epoch that the signed column cannot hold is pruned by its own persist. -/
theorem previous_le_iff (epoch : U64) : toI64 (previousEpoch epoch) ≤ toI64 epoch ↔ epoch.val ≠ 2 ^ 63 := by
  have bound := epoch.isLt
  have value : (previousEpoch epoch).val = epoch.val - 1 := rfl
  rw [toI64, toI64, value]
  split <;> split <;> omega

/-- What the persist stores for its own voters, and what it keeps of the other rows. -/
theorem lookup_persist (table : EpochStakes) {data : SnapshotStakeData} (nonempty : data.voters ≠ [])
    (distinct : (data.voters.map VoterStakeRow.votePubkey).Nodup) (bindable : data.params ≤ maxBindParams) :
    (∀ voter ∈ data.voters, data.epoch.val ≠ 2 ^ 63 →
      (persistEpochStakes table data).lookup (voter.key data.epoch) = some voter.stored) ∧
    (∀ key row, (persistEpochStakes table data).lookup key = some row →
      toI64 (previousEpoch data.epoch) ≤ key.1 ∧
      (key.1 = toI64 data.epoch ∧ key.2 ∈ data.voters.map VoterStakeRow.votePubkey ∨
        table.lookup key = some row)) := by
  have filled : data.voters.isEmpty = false := by simpa using nonempty
  simp only [persistEpochStakes, filled, Bool.false_eq_true, if_false, if_neg (Nat.not_lt.mpr bindable),
    HashMap.lookup_retain]
  constructor
  · intro voter member fits
    rw [HashMap.lookup_insertAll_of_mem (nodup_keys distinct) member]
    exact Option.filter_eq_some_iff.mpr ⟨rfl, decide_eq_true ((previous_le_iff data.epoch).mpr fits)⟩
  · intro key row found
    obtain ⟨stored, kept⟩ := Option.filter_eq_some_iff.mp found
    refine ⟨of_decide_eq_true kept, ?_⟩
    rcases Classical.em (key ∈ data.voters.map (VoterStakeRow.key data.epoch)) with own | other
    · obtain ⟨voter, member, rfl⟩ := List.mem_map.mp own
      exact Or.inl ⟨rfl, List.mem_map_of_mem member⟩
    · rw [HashMap.lookup_insertAll_of_not_mem other] at stored
      exact Or.inr stored

/-! ## Runs -/

/-- What is known of the table and the snapshot after a last persist. -/
structure Following (data : SnapshotStakeData) (system : StakesSystem) : Prop where
  nonempty : data.voters ≠ []
  distinct : (data.voters.map VoterStakeRow.votePubkey).Nodup
  rows : ∀ key row, system.table.lookup key = some row →
    ∃ epoch : U64, key.1 = toI64 epoch ∧ epoch ≤ data.epoch ∧ epoch.val ≠ 2 ^ 63
  stored : data.epoch.val ≠ 2 ^ 63 → ∀ voter ∈ data.voters,
    system.table.lookup (voter.key data.epoch) = some voter.stored
  cached : system.snapshot.epoch ≤ data.epoch ∧ system.snapshot.epoch.val ≠ 2 ^ 63
  signs : 2 ^ 63 ≤ system.snapshot.epoch.val → ∀ key row, system.table.lookup key = some row → key.1 < 0

/-- The table is empty and the snapshot is the first one before any persist. -/
def Untouched (system : StakesSystem) : Prop :=
  (∀ key, system.table.lookup key = none) ∧ system.snapshot.epoch = 0

private theorem toI64_nonneg {epoch : U64} (low : epoch.val < 2 ^ 63) : 0 ≤ toI64 epoch := by
  rw [toI64, if_pos low]
  exact Int.natCast_nonneg _

private theorem toI64_neg {epoch : U64} (high : 2 ^ 63 ≤ epoch.val) : toI64 epoch < 0 := by
  have bound := epoch.isLt
  rw [toI64, if_neg (Nat.not_lt.mpr high)]
  omega

/-- A lower epoch stands above a higher one in the signed column only when the higher one wrapped. -/
theorem wrapped_of_above {lower higher : U64} (order : toI64 higher ≤ toI64 lower)
    (different : toI64 lower ≠ toI64 higher) (bound : lower.val ≤ higher.val) :
    lower.val < 2 ^ 63 ∧ 2 ^ 63 ≤ higher.val := by
  rcases lt_or_ge lower.val (2 ^ 63) with low | high
  · refine ⟨low, ?_⟩
    by_contra unwrapped
    rw [toI64, toI64, if_pos low, if_pos (by omega)] at order different
    omega
  · rw [toI64, toI64, if_neg (by omega), if_neg (by omega)] at order different
    omega

theorem Following.persist {data : SnapshotStakeData} {system : StakesSystem} (nonempty : data.voters ≠ [])
    (distinct : (data.voters.map VoterStakeRow.votePubkey).Nodup) (bindable : data.params ≤ maxBindParams)
    (known : ∀ key row, system.table.lookup key = some row →
      ∃ epoch : U64, key.1 = toI64 epoch ∧ epoch ≤ data.epoch ∧ epoch.val ≠ 2 ^ 63)
    (cached : system.snapshot.epoch ≤ data.epoch ∧ system.snapshot.epoch.val ≠ 2 ^ 63)
    (signs : 2 ^ 63 ≤ system.snapshot.epoch.val → ∀ key row, system.table.lookup key = some row → key.1 < 0) :
    Following data { system with table := persistEpochStakes system.table data } := by
  obtain ⟨stored, kept⟩ := lookup_persist system.table nonempty distinct bindable
  refine ⟨nonempty, distinct, ?_, fun fits voter member => stored voter member fits, cached, ?_⟩
  · intro key row found
    obtain ⟨unpruned, ⟨own, -⟩ | before⟩ := kept key row found
    · refine ⟨data.epoch, own, le_refl _, ?_⟩
      rw [own] at unpruned
      exact (previous_le_iff data.epoch).mp unpruned
    · exact known key row before
  · intro high key row found
    obtain ⟨-, ⟨own, -⟩ | before⟩ := kept key row found
    · rw [own]
      exact toI64_neg (le_trans high cached.1)
    · exact signs high key row before

/-- A load takes over an epoch of the table. -/
theorem Following.loaded {data : SnapshotStakeData} {system : StakesSystem} (following : Following data system)
    {snapshot : StakesSnapshot} (loaded : loadLatestStakes system.table = some snapshot) :
    Following data { system with snapshot } := by
  cases highest : maxEpoch system.table with
  | none => rw [loadLatestStakes_none highest] at loaded; cases loaded
  | some epoch =>
    obtain ⟨found, ofTable, sameEpoch, -⟩ := loadLatestStakes_eq highest
    obtain rfl := Option.some.inj (loaded.symm.trans ofTable)
    obtain ⟨⟨voter, row, present⟩, above⟩ := maxEpoch_eq_some.mp highest
    obtain ⟨source, rfl, bound, fits⟩ := following.rows _ row present
    rw [toU64_toI64] at sameEpoch
    refine ⟨following.nonempty, following.distinct, following.rows, following.stored,
      ⟨sameEpoch ▸ bound, sameEpoch ▸ fits⟩, ?_⟩
    intro high key other found
    have below := above key other found
    have negative : toI64 source < 0 := toI64_neg (sameEpoch ▸ high)
    exact lt_of_le_of_lt below negative

theorem Following.poll {data : SnapshotStakeData} {system : StakesSystem} (following : Following data system) :
    Following data { system with snapshot := poll system.table system.snapshot } := by
  rw [VoteStakes.poll]
  split
  · exact following
  · next snapshot loaded =>
    split
    · exact following.loaded loaded
    · split
      · exact following.loaded loaded
      · exact following

theorem Following.apiStarts {data : SnapshotStakeData} {system : StakesSystem} (following : Following data system) :
    Following data { system with snapshot := (loadLatestStakes system.table).getD .empty } := by
  cases loaded : loadLatestStakes system.table with
  | some snapshot => exact following.loaded loaded
  | none =>
    refine ⟨following.nonempty, following.distinct, following.rows, following.stored, ⟨?_, ?_⟩, ?_⟩
    · exact Fin.zero_le _
    · change (0 : U64).val ≠ 2 ^ 63
      decide
    · intro high
      change 2 ^ 63 ≤ (0 : U64).val at high
      exact absurd high (by decide)

theorem Untouched.loads {system : StakesSystem} (untouched : Untouched system) :
    loadLatestStakes system.table = none := by
  apply loadLatestStakes_none
  cases highest : maxEpoch system.table with
  | none => rfl
  | some epoch =>
    obtain ⟨⟨voter, row, present⟩, -⟩ := maxEpoch_eq_some.mp highest
    rw [untouched.1] at present
    cases present

private theorem lastPersisted_concat (events : List StakesEvent) (event : StakesEvent) :
    lastPersisted (events ++ [event]) = event.persisted.or (lastPersisted events) := by
  rw [lastPersisted, List.foldl_append]
  rfl

/-- Before the first persist nothing is stored; afterwards the system follows the last one. -/
def Tracked (events : List StakesEvent) (system : StakesSystem) : Prop :=
  (lastPersisted events = none → Untouched system) ∧
    ∀ data ∈ lastPersisted events, Following data system

theorem tracked_new : Tracked [] StakesSystem.new :=
  ⟨fun _ => ⟨HashMap.lookup_empty, rfl⟩, fun _ found => absurd found (by simp [lastPersisted])⟩

theorem Tracked.step {events : List StakesEvent} {system next : StakesSystem} {event : StakesEvent}
    (tracked : Tracked events system) (allowed : Persisting events system event)
    (moves : system.step event = some next) : Tracked (events ++ [event]) next := by
  rw [Tracked, lastPersisted_concat]
  cases event with
  | persist data =>
    obtain rfl := Option.some.inj moves
    obtain ⟨nonempty, distinct, bindable, later⟩ := allowed data rfl
    refine ⟨fun missing => absurd missing (by simp [StakesEvent.persisted]), ?_⟩
    intro last found
    obtain rfl : data = last := Option.some.inj found
    cases before : lastPersisted events with
    | none =>
      obtain ⟨empty, first⟩ := tracked.1 before
      refine Following.persist nonempty distinct bindable (fun key row found => ?_) ⟨?_, ?_⟩
        (fun high key row found => ?_)
      · rw [empty] at found
        cases found
      · rw [first]
        exact Fin.zero_le _
      · rw [first]
        decide
      · rw [empty] at found
        cases found
    | some last =>
      have following := tracked.2 last before
      have rises := later last before
      refine Following.persist nonempty distinct bindable (fun key row found => ?_)
        ⟨le_trans following.cached.1 rises, following.cached.2⟩ following.signs
      obtain ⟨epoch, same, bound, fits⟩ := following.rows key row found
      exact ⟨epoch, same, le_trans bound rises, fits⟩
  | poll =>
    obtain rfl := Option.some.inj moves
    refine ⟨fun missing => ?_, fun data found => (tracked.2 data found).poll⟩
    have untouched := tracked.1 missing
    refine ⟨untouched.1, ?_⟩
    change (VoteStakes.poll system.table system.snapshot).epoch = 0
    rw [VoteStakes.poll, untouched.loads]
    exact untouched.2
  | apiStarts =>
    obtain rfl := Option.some.inj moves
    refine ⟨fun missing => ?_, fun data found => (tracked.2 data found).apiStarts⟩
    have untouched := tracked.1 missing
    refine ⟨untouched.1, ?_⟩
    change ((loadLatestStakes system.table).getD .empty).epoch = 0
    rw [untouched.loads]
    rfl

private theorem tracked_run {events : List StakesEvent} {system : StakesSystem} (run : StakesRun events system) :
    Tracked events system :=
  run.invariant tracked_new fun _ _ _ _ tracked allowed moves => tracked.step allowed moves

/-! ## Polls -/

section Poll

variable {data : SnapshotStakeData} {system : StakesSystem}

theorem lookup_snapshot (following : Following data system) (voter : Pubkey) (entry : VoterEntry) :
    data.snapshot.voters.lookup voter = some entry ↔
      ∃ row ∈ data.voters, row.votePubkey = voter ∧ row.entry = entry :=
  HashMap.lookup_insertAll following.distinct voter entry

/-- A load of the data's epoch holds every voter of the data. -/
theorem loaded_extends (following : Following data system) (fits : data.epoch.val ≠ 2 ^ 63)
    {voter : Pubkey} {entry : VoterEntry} (present : data.snapshot.voters.lookup voter = some entry) :
    (system.table.lookup (toI64 data.epoch, voter)).map EpochStakeRow.entry = some entry := by
  obtain ⟨row, member, rfl, rfl⟩ := (lookup_snapshot following voter entry).mp present
  have stored := following.stored fits row member
  rw [VoterStakeRow.key] at stored
  rw [stored, Option.map_some, entry_stored]

theorem lookup_snapshot_none (following : Following data system) (voter : Pubkey) :
    data.snapshot.voters.lookup voter = none ↔ voter ∉ data.voters.map VoterStakeRow.votePubkey := by
  constructor
  · intro missing member
    obtain ⟨row, listed, rfl⟩ := List.mem_map.mp member
    rw [(lookup_snapshot following row.votePubkey row.entry).mpr ⟨row, listed, rfl, rfl⟩] at missing
    cases missing
  · intro absent
    cases present : data.snapshot.voters.lookup voter with
    | none => rfl
    | some entry =>
      obtain ⟨row, member, rfl, -⟩ := (lookup_snapshot following voter entry).mp present
      exact absurd (List.mem_map_of_mem member) absent

/-- The load is the data exactly when no row was left behind. -/
theorem loaded_mirrors_iff (following : Following data system) (fits : data.epoch.val ≠ 2 ^ 63)
    {loaded : StakesSnapshot} (sameEpoch : loaded.epoch = data.epoch)
    (rows : ∀ voter, loaded.voters.lookup voter =
      (system.table.lookup (toI64 data.epoch, voter)).map EpochStakeRow.entry) :
    Mirrors loaded data ↔ ∀ voter row, ¬ IsStale system.table data voter row := by
  constructor
  · rintro ⟨-, same⟩ voter row ⟨present, absent⟩
    have voters := same voter
    rw [rows, present, (lookup_snapshot_none following voter).mpr absent] at voters
    cases voters
  · intro noStale
    refine ⟨sameEpoch, fun voter => ?_⟩
    rw [rows]
    cases known : data.snapshot.voters.lookup voter with
    | some entry => exact loaded_extends following fits known
    | none =>
      cases present : system.table.lookup (toI64 data.epoch, voter) with
      | none => rfl
      | some row => exact absurd ⟨present, (lookup_snapshot_none following voter).mp known⟩ (noStale voter row)

/-- The totals of the load and of the data agree exactly when the rows left behind carry no stake. -/
theorem totals_eq_iff (following : Following data system) (fits : data.epoch.val ≠ 2 ^ 63)
    {loaded : StakesSnapshot} (rows : ∀ voter, loaded.voters.lookup voter =
      (system.table.lookup (toI64 data.epoch, voter)).map EpochStakeRow.entry) :
    data.snapshot.totalStake = loaded.totalStake ↔
      ∀ voter row, IsStale system.table data voter row → toU64 row.activatedStake = 0 := by
  rw [StakesSnapshot.totalStake, StakesSnapshot.totalStake, HashMap.sum_eq_sum_iff
    (fun voter entry present => (rows voter).trans (loaded_extends following fits present))]
  constructor
  · rintro further voter row ⟨present, absent⟩
    have found := rows voter
    rw [present, Option.map_some] at found
    exact Fin.ext (further voter row.entry found ((lookup_snapshot_none following voter).mpr absent))
  · intro idle voter entry found missing
    rw [rows, Option.map_eq_some_iff] at found
    obtain ⟨row, present, rfl⟩ := found
    have zero := idle voter row ⟨present, (lookup_snapshot_none following voter).mp missing⟩
    exact congrArg Fin.val zero

theorem Mirrors.total {snapshot : StakesSnapshot} (mirrors : Mirrors snapshot data) :
    snapshot.totalStake = data.snapshot.totalStake := HashMap.sum_congr mirrors.2

/-- While the highest stored epoch is not the data's, neither a load nor the snapshot can have it. -/
theorem not_mirrored_of_hidden (following : Following data system)
    (hidden : maxEpoch system.table ≠ some (toI64 data.epoch)) :
    ¬ Mirrors (poll system.table system.snapshot) data := by
  rintro ⟨sameEpoch, -⟩
  obtain ⟨first, nonempty⟩ := List.exists_mem_of_ne_nil data.voters following.nonempty
  have stored : data.epoch.val ≠ 2 ^ 63 →
      system.table.lookup (toI64 data.epoch, first.votePubkey) = some first.stored :=
    fun fits => following.stored fits first nonempty
  have low : data.epoch.val ≠ 2 ^ 63 → system.snapshot.epoch.val < 2 ^ 63 ∧ 2 ^ 63 ≤ data.epoch.val ∧
      ∃ epoch : U64, maxEpoch system.table = some (toI64 epoch) ∧ epoch.val < 2 ^ 63 := by
    intro fits
    cases highest : maxEpoch system.table with
    | none =>
      have missing := maxEpoch_eq_none highest (toI64 data.epoch, first.votePubkey)
      rw [stored fits] at missing
      cases missing
    | some epoch =>
      obtain ⟨⟨voter, row, present⟩, above⟩ := maxEpoch_eq_some.mp highest
      obtain ⟨source, rfl, bound, -⟩ := following.rows _ row present
      have order := above _ _ (stored fits)
      have different : toI64 source ≠ toI64 data.epoch := fun same => hidden (highest.trans (congrArg some same))
      have bound' : source.val ≤ data.epoch.val := bound
      -- a lower epoch stands above the data's in the column, so only the data's wrapped
      have sourceLow : source.val < 2 ^ 63 ∧ 2 ^ 63 ≤ data.epoch.val :=
        wrapped_of_above order different bound'
      refine ⟨?_, sourceLow.2, source, rfl, sourceLow.1⟩
      by_contra high
      have negative := following.signs (by omega) _ _ present
      exact absurd (toI64_nonneg sourceLow.1) (by simpa using negative)
  rcases Classical.em (data.epoch.val = 2 ^ 63) with wraps | fits
  · -- the persist of this epoch deletes its own rows, and no row ever has it
    have unseen := following.poll.cached.2
    exact unseen ((congrArg Fin.val sameEpoch).trans wraps)
  · obtain ⟨cachedLow, high, epoch, highest, epochLow⟩ := low fits
    obtain ⟨loaded, ofTable, loadedEpoch, -⟩ := loadLatestStakes_eq highest
    rw [toU64_toI64] at loadedEpoch
    have value := congrArg Fin.val sameEpoch
    rw [VoteStakes.poll, ofTable] at value
    simp only at value
    split at value
    · rw [loadedEpoch] at value
      omega
    · split at value
      · rw [loadedEpoch] at value
        omega
      · omega

private theorem poll_mirrors_iff (following : Following data system) :
    Mirrors (poll system.table system.snapshot) data ↔ Visible system data := by
  rcases Classical.em (maxEpoch system.table = some (toI64 data.epoch)) with highest | hidden
  · obtain ⟨loaded, ofTable, loadedEpoch, rows⟩ := loadLatestStakes_eq highest
    rw [toU64_toI64] at loadedEpoch
    have fits : data.epoch.val ≠ 2 ^ 63 := by
      obtain ⟨⟨voter, row, present⟩, -⟩ := maxEpoch_eq_some.mp highest
      obtain ⟨epoch, same, -, fits⟩ := following.rows _ row present
      rwa [toI64_injective same]
    have whole := loaded_mirrors_iff following fits loadedEpoch rows
    have totals := totals_eq_iff following fits rows
    rw [VoteStakes.poll, ofTable, Visible]
    simp only [loadedEpoch, highest, true_and]
    constructor
    · intro mirrors
      split at mirrors
      · next newer => exact Or.inl ⟨whole.mp mirrors, Or.inl newer⟩
      · split at mirrors
        · next changed =>
          have noStale := whole.mp mirrors
          refine Or.inl ⟨noStale, Or.inr (fun same => changed.2 ?_)⟩
          rw [same, mirrors.total]
        · next unchanged =>
          refine Or.inr ⟨mirrors, totals.mp ?_⟩
          rw [← mirrors.total]
          by_contra different
          exact unchanged ⟨mirrors.1.symm, fun same => different same.symm⟩
    · rintro (⟨noStale, newer | changed⟩ | ⟨mirrors, idle⟩)
      · rw [if_pos newer]
        exact whole.mpr noStale
      · split
        · exact whole.mpr noStale
        · next notNewer =>
          have sameEpoch : data.epoch = system.snapshot.epoch :=
            le_antisymm (not_lt.mp notNewer) following.cached.1
          have seen : loaded.totalStake ≠ system.snapshot.totalStake := by
            rw [(whole.mpr noStale).total]
            exact fun same => changed same.symm
          rw [if_pos ⟨sameEpoch, seen⟩]
          exact whole.mpr noStale
      · have unseen : loaded.totalStake = system.snapshot.totalStake := by
          rw [mirrors.total, totals.mpr idle]
        rw [if_neg (fun newer => absurd mirrors.1 (ne_of_lt newer)), if_neg (fun changed => changed.2 unseen)]
        exact mirrors
  · exact ⟨fun mirrors => absurd mirrors (not_mirrored_of_hidden following hidden), fun visible => absurd visible.1 hidden⟩

end Poll

/-- After any run of persists, polls and API starts, a poll leaves the snapshot with the epoch and exactly
the voters of the last persist if and only if the persisted state is visible to it. -/
theorem snapshot_mirrors_last_persist_iff {events : List StakesEvent} {system : StakesSystem}
    {data : SnapshotStakeData} (run : StakesRun events system) (last : lastPersisted events = some data) :
    Mirrors (poll system.table system.snapshot) data ↔ Visible system data :=
  poll_mirrors_iff ((tracked_run run).2 data last)

section Run

/-- A persist of two voters. -/
def firstPersist : SnapshotStakeData := ⟨5, [⟨1, 11, 70, true⟩, ⟨2, 12, 30, true⟩]⟩

/-- Within the epoch, stake moves between the two voters. -/
def movedPersist : SnapshotStakeData := ⟨5, [⟨1, 11, 60, true⟩, ⟨2, 12, 40, true⟩]⟩

/-- Within the epoch, stake moves between the two voters and a third one joins. -/
def joinedPersist : SnapshotStakeData := ⟨5, [⟨1, 11, 60, true⟩, ⟨2, 12, 40, true⟩, ⟨3, 13, 5, false⟩]⟩

/-- Two persists of one epoch, with a poll after the first one. -/
def pollBetween (second : SnapshotStakeData) : List StakesEvent := [.persist firstPersist, .poll, .persist second]

/-- The state that the two persists leave. -/
def afterSecond (second : SnapshotStakeData) : StakesSystem :=
  ⟨persistEpochStakes (persistEpochStakes ∅ firstPersist) second, poll (persistEpochStakes ∅ firstPersist) .empty⟩

private theorem run_pollBetween {second : SnapshotStakeData} (nonempty : second.voters ≠ [])
    (distinct : (second.voters.map VoterStakeRow.votePubkey).Nodup) (bindable : second.params ≤ maxBindParams)
    (later : (5 : U64) ≤ second.epoch) : StakesRun (pollBetween second) (afterSecond second) := by
  have first : StakesRun ([] ++ [.persist firstPersist]) ⟨persistEpochStakes ∅ firstPersist, .empty⟩ := by
    refine Run.step .start ?_ rfl
    intro data found
    obtain rfl := Option.some.inj found
    exact ⟨by decide, by decide, by decide, fun last found => absurd found (by simp [lastPersisted])⟩
  have polled : StakesRun ([.persist firstPersist] ++ [.poll])
      ⟨persistEpochStakes ∅ firstPersist, poll (persistEpochStakes ∅ firstPersist) .empty⟩ :=
    Run.step first (fun data found => absurd found (by simp [StakesEvent.persisted])) rfl
  have run : StakesRun ([.persist firstPersist, .poll] ++ [.persist second]) (afterSecond second) := by
    refine Run.step polled ?_ rfl
    intro data found
    obtain rfl := Option.some.inj found
    refine ⟨nonempty, distinct, bindable, fun last found => ?_⟩
    obtain rfl := Option.some.inj (show some firstPersist = some last from found)
    exact later
  exact run

end Run

/-- The second persist of the epoch has another total, so the poll takes it over with the moved stake. -/
theorem snapshot_mirrors_second_persist :
    Mirrors (poll (afterSecond joinedPersist).table (afterSecond joinedPersist).snapshot) joinedPersist := by
  have run : StakesRun (pollBetween joinedPersist) (afterSecond joinedPersist) :=
    run_pollBetween (by decide) (by decide) (by decide) (by decide)
  refine (snapshot_mirrors_last_persist_iff run rfl).mpr ⟨by decide +kernel, Or.inl ⟨?_, ?_⟩⟩
  · rintro voter row ⟨present, absent⟩
    have stored := (@lookup_persist (persistEpochStakes ∅ firstPersist) joinedPersist (by decide) (by decide)
      (by decide)).2 _ row present
    obtain ⟨-, ⟨-, own⟩ | before⟩ := stored
    · exact absent own
    · obtain ⟨-, ⟨-, own⟩ | unstored⟩ :=
        (@lookup_persist ∅ firstPersist (by decide) (by decide) (by decide)).2 _ row before
      · exact absent (List.mem_of_mem_take (i := 2) own)
      · rw [HashMap.lookup_empty] at unstored
        cases unstored
  · exact Or.inr (by decide +kernel)

/-- Stake moves from one voter to another within an epoch: the total is the same, and the poll keeps the
old split. -/
theorem moved_stake_is_not_seen :
    ¬ ∀ (events : List StakesEvent) (system : StakesSystem) (data : SnapshotStakeData),
      StakesRun events system → lastPersisted events = some data →
        Mirrors (poll system.table system.snapshot) data := by
  intro mirrors
  have run : StakesRun (pollBetween movedPersist) (afterSecond movedPersist) :=
    run_pollBetween (by decide) (by decide) (by decide) (by decide)
  have voters := (mirrors _ _ movedPersist run rfl).2 1
  revert voters
  decide +kernel

end Cloudbreak.Model.VoteStakes
