import Cloudbreak.Proofs.LargestAccounts.Emission
import Cloudbreak.Proofs.LargestAccounts.OneMint

/-! # The stored rows follow the tracker

Every step of the system is, for each mint, a step of its own list of tasks or none at all. So the rows of a
mint follow the tracker in every run that keeps the order of the outcomes, mint by mint, and loses no delete.
-/

namespace Cloudbreak.Model.LargestAccounts

open Cloudbreak.ToMathlib

variable {mint : Pubkey} {outcome : BlockOutcome} {table : LargestAccountsTable} {records : List MintRecord}

/-! ## Statements, seen from one mint -/

namespace Statement

variable {statement : Statement}

/-- The mints a statement is about. -/
def mints : Statement → List Pubkey
  | .deleteMintRows mint => [mint]
  | .persistRecords records _ => records.map MintRecord.mint
  | .markMintStale mint => [mint]

/-- The task that a statement is for one mint. -/
def about (mint : Pubkey) : Statement → Option MintTask
  | .deleteMintRows other => if other = mint then some .delete else none
  | .persistRecords records bootstrap =>
    (records.find? fun record => record.mint = mint).map fun record => .upsert record bootstrap
  | .markMintStale other => if other = mint then some .mark else none

/-- Whether a statement is about a mint. -/
def concerns (statement : Statement) (mint : Pubkey) : Bool := statement.mints.contains mint

/-- Whether two statements are about different mints. -/
def apart (statement other : Statement) : Bool := statement.mints.all fun mint => !other.concerns mint

theorem concerns_of_apart {other : Statement} (apart : statement.apart other = true) (member : mint ∈ statement.mints) :
    other.concerns mint = false := by
  have each := List.all_eq_true.mp apart mint member
  rwa [Bool.not_eq_true'] at each

theorem about_eq_none : statement.about mint = none ↔ mint ∉ statement.mints := by
  cases statement with
  | deleteMintRows other => simp [about, mints, eq_comm]
  | markMintStale other => simp [about, mints, eq_comm]
  | persistRecords records bootstrap => simp [about, mints]

theorem about_of_not_concerns (other : statement.concerns mint = false) : statement.about mint = none :=
  about_eq_none.mpr fun member => Bool.false_ne_true (other.symm.trans (List.contains_iff_mem.mpr member))

theorem mem_mints_of_about {task : MintTask} (about : statement.about mint = some task) : mint ∈ statement.mints := by
  by_contra absent
  rw [about_eq_none.mpr absent] at about
  contradiction

def isRecords : Statement → Bool
  | .persistRecords _ _ => true
  | _ => false

/-- The records of a persist are its last statement and name each mint once. After a mark there are none. -/
def WellFormed : List Statement → Prop
  | [] => True
  | .persistRecords records _ :: rest => (records.map MintRecord.mint).Nodup ∧ rest = []
  | .deleteMintRows _ :: rest => WellFormed rest
  | .markMintStale _ :: rest => (∀ other ∈ rest, other.isRecords = false) ∧ WellFormed rest

theorem WellFormed.tail {rest : List Statement} (shaped : WellFormed (statement :: rest)) : WellFormed rest := by
  cases statement with
  | deleteMintRows other => exact shaped
  | markMintStale other => exact shaped.2
  | persistRecords records bootstrap => exact shaped.2 ▸ trivial

theorem wellFormed_of_noRecords {statements : List Statement} (none : ∀ other ∈ statements, other.isRecords = false) :
    WellFormed statements := by
  induction statements with
  | nil => trivial
  | cons statement rest ih =>
    have shaped := ih fun other member => none other (List.mem_cons_of_mem _ member)
    have first := none statement List.mem_cons_self
    cases statement with
    | deleteMintRows other => exact shaped
    | markMintStale other => exact ⟨fun other member => none other (List.mem_cons_of_mem _ member), shaped⟩
    | persistRecords records bootstrap => cases first

theorem record_of_noRecords (noRecords : statement.isRecords = false) {task : MintTask}
    (about : statement.about mint = some task) : task.record = none := by
  cases statement with
  | persistRecords records bootstrap => cases noRecords
  | deleteMintRows other =>
    rw [Statement.about] at about
    split at about
    · cases about
      rfl
    · contradiction
  | markMintStale other =>
    rw [Statement.about] at about
    split at about
    · cases about
      rfl
    · contradiction

theorem noRecords_onFailure : ∀ other ∈ statement.onFailure, other.isRecords = false := by
  intro other member
  cases statement with
  | deleteMintRows mint => cases member
  | markMintStale mint => cases member
  | persistRecords records bootstrap =>
    cases bootstrap with
    | false =>
      obtain ⟨record, _, member⟩ := List.mem_flatMap.mp member
      rcases List.mem_cons.mp member with rfl | member
      · rfl
      · rw [List.mem_singleton.mp member]
        rfl
    | true =>
      obtain ⟨record, _, rfl⟩ := List.mem_map.mp member
      rfl

/-- A failed record is followed up for every mint of its transaction. -/
theorem about_onFailure (distinct : (records.map MintRecord.mint).Nodup) (bootstrap : Bool) (mint : Pubkey) :
    (Statement.persistRecords records bootstrap).onFailure.filterMap (about mint) =
      ((Statement.persistRecords records bootstrap).about mint).elim [] MintTask.onFailure := by
  induction records with
  | nil => cases bootstrap <;> rfl
  | cons record rest ih =>
    rw [List.map_cons, List.nodup_cons] at distinct
    have later := ih distinct.2
    rcases eq_or_ne record.mint mint with rfl | differs
    · have absent : (Statement.persistRecords rest bootstrap).about record.mint = none := about_eq_none.mpr distinct.1
      rw [absent, Option.elim_none] at later
      have found : (Statement.persistRecords (record :: rest) bootstrap).about record.mint =
          some (.upsert record bootstrap) := by simp [about]
      rw [found, Option.elim_some]
      cases bootstrap with
      | false =>
        simp only [onFailure, List.flatMap_cons, List.filterMap_append] at later ⊢
        rw [later]
        simp [about, MintTask.onFailure]
      | true =>
        simp only [onFailure, List.map_cons] at later ⊢
        rw [List.filterMap_cons, later]
        simp [about, MintTask.onFailure]
    · have found : (Statement.persistRecords (record :: rest) bootstrap).about mint =
          (Statement.persistRecords rest bootstrap).about mint := by simp [about, differs]
      rw [found, ← later]
      cases bootstrap with
      | false => simp [onFailure, about, differs]
      | true => simp [onFailure, about, differs]

end Statement

/-! ## The table, seen from one mint -/

/-- The rows of a mint. -/
def LargestAccountsTable.of (table : LargestAccountsTable) (mint : Pubkey) : List MintRecord :=
  table.filter fun row => row.mint = mint

namespace LargestAccountsTable

theorem of_deleteMintRows (table : LargestAccountsTable) (deleted mint : Pubkey) :
    (table.deleteMintRows deleted).of mint = if deleted = mint then [] else table.of mint := by
  rw [of, deleteMintRows, List.filter_filter]
  split
  · next same =>
    refine List.filter_eq_nil_iff.mpr fun row _ kept => ?_
    simp [same] at kept
  · next differs =>
    refine List.filter_congr fun row _ => ?_
    rcases eq_or_ne row.mint mint with same | other
    · simp [same, Ne.symm differs]
    · simp [other]

private theorem of_upsert (table : LargestAccountsTable) (record : MintRecord) (bootstrap : Bool) (mint : Pubkey) :
    (table.upsert record).of mint =
      if record.mint = mint then (MintTask.upsert record bootstrap).run (table.of mint) else table.of mint := by
  rw [of, upsert, List.filter_append, List.filter_filter, List.filter_singleton, MintTask.run, of, List.filter_filter]
  split
  · next same =>
    rw [decide_eq_true same, cond_true]
    congr 1
    refine List.filter_congr fun row _ => ?_
    rcases eq_or_ne row.mint mint with other | other <;> simp [other, same]
  · next differs =>
    rw [decide_eq_false differs, cond_false, List.append_nil]
    refine List.filter_congr fun row _ => ?_
    rcases eq_or_ne row.mint mint with other | other <;> simp [other, Ne.symm differs]

theorem of_persistRecords (distinct : (records.map MintRecord.mint).Nodup) (table : LargestAccountsTable)
    (bootstrap : Bool) (mint : Pubkey) :
    (table.persistRecords records).of mint =
      ((Statement.persistRecords records bootstrap).about mint).elim (table.of mint) fun task =>
        task.run (table.of mint) := by
  induction records generalizing table with
  | nil => rfl
  | cons record rest ih =>
    rw [List.map_cons, List.nodup_cons] at distinct
    have later := ih distinct.2 (table.upsert record)
    rw [persistRecords, List.foldl_cons]
    refine later.trans ?_
    rw [of_upsert table record bootstrap]
    rcases eq_or_ne record.mint mint with rfl | differs
    · rw [Statement.about_eq_none.mpr distinct.1, if_pos rfl, Option.elim_none]
      simp [Statement.about]
    · rw [if_neg differs]
      simp [Statement.about, differs]

theorem of_prune_subset (table : LargestAccountsTable) (slot : ℕ) (mint : Pubkey) :
    (table.prune slot).of mint ⊆ table.of mint :=
  (List.filter_sublist.filter _).subset

/-- The newest row of a mint is not pruned. -/
theorem mem_of_prune {slot : ℕ} {row : MintRecord} (member : row ∈ table.of mint)
    (newest : ∀ other ∈ table.of mint, other.slot ≤ row.slot) : row ∈ (table.prune slot).of mint := by
  obtain ⟨present, same⟩ := List.mem_filter.mp member
  refine List.mem_filter.mpr ⟨List.mem_filter.mpr ⟨present, decide_eq_true ?_⟩, same⟩
  rintro ⟨keep, kept, sameMint, _, less⟩
  have below := newest keep (List.mem_filter.mpr ⟨kept, decide_eq_true (sameMint.trans (of_decide_eq_true same))⟩)
  omega

/-- A read at or above the newest row's slot returns what is stored. -/
theorem fetchRecord_eq (told : Option (List (Pubkey × ℕ))) (stored : Stored (table.of mint) told) {maxSlot : ℕ}
    (covers : ∀ row ∈ table.of mint, row.slot ≤ maxSlot) : table.fetchRecord mint maxSlot = told := by
  have all : (table.filter fun row => row.mint = mint ∧ row.slot ≤ maxSlot) = table.of mint := by
    rw [of]
    refine List.filter_congr fun row member => ?_
    rcases eq_or_ne row.mint mint with same | differs
    · simp [same, covers row (List.mem_filter.mpr ⟨member, decide_eq_true same⟩)]
    · simp [differs]
  rw [fetchRecord, all]
  cases told with
  | none =>
    rw [show table.of mint = [] from stored]
    rfl
  | some wanted =>
    obtain ⟨row, member, same, top⟩ := stored
    cases newest : (table.of mint).argmax MintRecord.slot with
    | none => exact absurd member (List.argmax_eq_none.mp newest ▸ List.not_mem_nil)
    | some other =>
      have le : row.slot ≤ other.slot := List.le_of_mem_argmax member newest
      rcases top other (List.argmax_mem newest) with rfl | less
      · rw [Option.map_some, same]
      · omega

end LargestAccountsTable

/-! ## Outcomes, seen from one mint -/

private theorem about_deletes {mints : List Pubkey} (distinct : mints.Nodup) (mint : Pubkey) :
    (mints.map Statement.deleteMintRows).filterMap (Statement.about mint) = if mint ∈ mints then [.delete] else [] := by
  induction mints with
  | nil => rfl
  | cons first rest ih =>
    obtain ⟨fresh, distinct⟩ := List.nodup_cons.mp distinct
    rw [List.map_cons, List.filterMap_cons, ih distinct]
    rcases eq_or_ne first mint with rfl | differs
    · simp [Statement.about, fresh]
    · simp [Statement.about, differs, Ne.symm differs]

theorem about_records (records : List MintRecord) (bootstrap : Bool) (mint : Pubkey) :
    (if records = [] then [] else [Statement.persistRecords records bootstrap]).filterMap (Statement.about mint) =
      ((Statement.persistRecords records bootstrap).about mint).toList := by
  split
  · next empty =>
    rw [empty]
    rfl
  · rw [List.filterMap_cons]
    cases (Statement.persistRecords records bootstrap).about mint <;> rfl

/-- The tasks of an outcome for a mint: one where it names the mint, which leaves what the outcome leaves. -/
theorem about_outcome (distinct : outcome.named.Nodup) (mint : Pubkey) :
    ((persistLargestOutcome outcome).filterMap (Statement.about mint) = [] ∧ outcome.leaves mint = none) ∨
      ∃ task, (persistLargestOutcome outcome).filterMap (Statement.about mint) = [task] ∧
        outcome.leaves mint = some task.leaves ∧ task ≠ .mark ∧ (∀ record, task ≠ .upsert record true) ∧
        ∀ record ∈ task.record, record ∈ outcome.records := by
  rw [BlockOutcome.named, List.nodup_append] at distinct
  rw [persistLargestOutcome, List.filterMap_append, about_deletes distinct.1, about_records, BlockOutcome.leaves]
  simp only [List.contains_iff_mem]
  split
  · next listed =>
    have unrecorded : (Statement.persistRecords outcome.records false).about mint = none :=
      Statement.about_eq_none.mpr fun recorded => distinct.2.2 mint listed mint recorded rfl
    refine Or.inr ⟨.delete, ?_, rfl, fun mark => ?_, fun _ upsert => ?_, fun _ record => ?_⟩
    · rw [unrecorded]
      rfl
    · cases mark
    · cases upsert
    · cases record
  · cases found : outcome.records.find? fun record => record.mint = mint with
    | none =>
      refine Or.inl ⟨?_, rfl⟩
      rw [Statement.about, found]
      rfl
    | some record =>
      refine Or.inr ⟨.upsert record false, ?_, rfl, fun mark => ?_, fun _ upsert => ?_, fun other same => ?_⟩
      · rw [Statement.about, found]
        rfl
      · cases mark
      · cases upsert
      · rw [← Option.some.inj same]
        exact List.mem_of_find?_eq_some found

theorem wellFormed_outcome (distinct : outcome.named.Nodup) : Statement.WellFormed (persistLargestOutcome outcome) := by
  rw [BlockOutcome.named, List.nodup_append] at distinct
  rw [persistLargestOutcome]
  induction outcome.newlyStale ++ outcome.cleared with
  | nil =>
    rw [List.map_nil, List.nil_append]
    split
    · trivial
    · exact ⟨distinct.2.1, rfl⟩
  | cons mint rest ih => exact ih

theorem wellFormed_bootstrap (distinct : outcome.named.Nodup) :
    Statement.WellFormed (persistBootstrapOutcome outcome) := by
  rw [BlockOutcome.named, List.nodup_append] at distinct
  rw [persistBootstrapOutcome]
  split
  · trivial
  · exact ⟨distinct.2.1, rfl⟩

end Cloudbreak.Model.LargestAccounts
