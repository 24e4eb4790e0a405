import Cloudbreak.Model.Snapshot.DbLtHash

/-! # Each live account of the database once

The first two bytes of a key name its batch. Within a batch the owner filter keeps every newest row, so the one
row that a query returns for a key is a newest one of both tables, although older rows may be filtered out or
kept.
-/

namespace Cloudbreak.Model.Snapshot

open Cloudbreak.ToMathlib

variable {targetSlot : ℕ} {programs : AccountSelectorConfig} {rows accounts snapshotAccounts : List AccountRow}

/-! ## The batches -/

/-- The number that the first two bytes of a key spell. -/
def keyPrefix (pubkey : Pubkey) : ℕ :=
  256 * ((Pubkey.toBytes pubkey).getD 0 0).toNat + ((Pubkey.toBytes pubkey).getD 1 0).toNat

private theorem toBytes_two (pubkey : Pubkey) : ∃ first second rest, Pubkey.toBytes pubkey = first :: second :: rest :=
  ⟨_, _, _, rfl⟩

theorem keyPrefix_lt (pubkey : Pubkey) : keyPrefix pubkey < 0x10000 := by
  have high := ((Pubkey.toBytes pubkey).getD 0 0).toNat_lt
  have low := ((Pubkey.toBytes pubkey).getD 1 0).toNat_lt
  unfold keyPrefix
  omega

private theorem lt_batchBytes (pubkey : Pubkey) {pre : ℕ} (within : pre < 0x10000) :
    Bytea.lt (Pubkey.toBytes pubkey) (batchBytes pre) = decide (keyPrefix pubkey < pre) := by
  obtain ⟨first, second, rest, bytes⟩ := toBytes_two pubkey
  have high : (UInt8.ofNat (pre / 256)).toNat = pre / 256 := by
    rw [UInt8.toNat_ofNat']
    exact Nat.mod_eq_of_lt (by omega)
  have low : (UInt8.ofNat (pre % 256)).toNat = pre % 256 := by
    rw [UInt8.toNat_ofNat']
    exact Nat.mod_eq_of_lt (by omega)
  rw [keyPrefix, bytes, batchBytes, Bytea.lt_two, high, low, decide_eq_decide]
  simp only [List.getD_cons_zero, List.getD_cons_succ]
  omega

/-- A key lies in the batch of its first two bytes. -/
theorem inBatch_iff (pubkey : Pubkey) {pre : ℕ} (within : pre < 0x10000) :
    inBatch pre pubkey = true ↔ keyPrefix pubkey = pre := by
  have last := keyPrefix_lt pubkey
  rw [inBatch, lt_batchBytes pubkey within, Bool.and_eq_true, Bool.or_eq_true]
  simp only [Bool.not_eq_true', decide_eq_false_iff_not, decide_eq_true_eq]
  by_cases isLast : pre = 0xFFFF
  · omega
  · rw [lt_batchBytes pubkey (by omega), decide_eq_true_eq]
    omega

/-- Every key falls into exactly one batch. -/
theorem existsUnique_batch (pubkey : Pubkey) : ∃! pre, pre < 0x10000 ∧ inBatch pre pubkey = true :=
  ⟨keyPrefix pubkey, ⟨keyPrefix_lt pubkey, (inBatch_iff pubkey (keyPrefix_lt pubkey)).mpr rfl⟩,
    fun _ isBatch => ((inBatch_iff pubkey isBatch.1).mp isBatch.2).symm⟩

/-! ## One query -/

private theorem buildOwnerFilter_holds (programs : AccountSelectorConfig) (owner : Pubkey) :
    (buildOwnerFilter programs).holds owner = programs.isProgramSelected owner := by
  unfold buildOwnerFilter AccountSelectorConfig.isProgramSelected
  by_cases included : programs.includePrograms = []
  · rw [if_neg (not_not.mpr included), if_pos included]
    split
    · next nothing => rw [nothing]; rfl
    · rw [OwnerFilter.holds, List.not_any_eq_all_not]
      simp only [decide_not]
  · rw [if_pos included, if_neg included]
    rfl

/-- The rows of both tables up to a slot. -/
def upTo (targetSlot : ℕ) (rows : List AccountRow) : List AccountRow :=
  rows.filter fun row => decide (row.slot ≤ targetSlot)

/-- Every newest row is of a selected program. -/
def NewestSelectedRows (programs : AccountSelectorConfig) (rows : List AccountRow) : Prop :=
  ∀ row ∈ rows, IsNewest AccountRow.pubkey AccountRow.stamp rows row → programs.isProgramSelected row.owner = true

instance : Decidable (NewestSelectedRows programs rows) :=
  inferInstanceAs (Decidable (∀ row ∈ rows, _ → _))

theorem query_spec {arrange : ℕ → List AccountRow → List AccountRow}
    (arranges : ∀ pre rows, (arrange pre rows).Perm rows)
    (selected : NewestSelectedRows programs (upTo targetSlot (accounts ++ snapshotAccounts))) {pre : ℕ}
    (within : pre < 0x10000) :
    let answer := queryAccountsBatch arrange accounts snapshotAccounts targetSlot (buildOwnerFilter programs) pre
    (answer.map AccountRow.pubkey).Nodup ∧
      (∀ row ∈ answer, row ∈ upTo targetSlot (accounts ++ snapshotAccounts) ∧ keyPrefix row.pubkey = pre ∧
        IsNewest AccountRow.pubkey AccountRow.stamp (upTo targetSlot (accounts ++ snapshotAccounts)) row) ∧
      ∀ row ∈ upTo targetSlot (accounts ++ snapshotAccounts), keyPrefix row.pubkey = pre →
        ∃ kept ∈ answer, kept.pubkey = row.pubkey := by
  have combined : accounts.filter (selectsRow targetSlot (buildOwnerFilter programs) pre) ++
      snapshotAccounts.filter (selectsRow targetSlot (buildOwnerFilter programs) pre) =
      (upTo targetSlot (accounts ++ snapshotAccounts)).filter fun row =>
        inBatch pre row.pubkey && programs.isProgramSelected row.owner := by
    rw [← List.filter_append, upTo, List.filter_filter]
    refine List.filter_congr fun row _ => ?_
    rw [selectsRow, buildOwnerFilter_holds, Bool.and_assoc, Bool.and_comm]
  have one := (oneNewest_distinctOn AccountRow.pubkey AccountRow.stamp _).perm (arranges pre
    (accounts.filter (selectsRow targetSlot (buildOwnerFilter programs) pre) ++
      snapshotAccounts.filter (selectsRow targetSlot (buildOwnerFilter programs) pre)))
  have distinct := one.distinct
  rw [combined] at one
  obtain ⟨kept, complete⟩ := one.of_filter (fun pubkey => keyPrefix pubkey = pre)
    (fun row isKept => (inBatch_iff row.pubkey within).mp (Bool.and_eq_true_iff.mp isKept).1)
    (fun row member inside newest =>
      Bool.and_eq_true_iff.mpr ⟨(inBatch_iff row.pubkey within).mpr inside, selected row member newest⟩)
  rw [← combined] at kept complete
  exact ⟨distinct, kept, complete⟩

/-! ## The whole scan -/

/-- The hash and the number of the live rows of a list. -/
def liveRows (expand : List UInt8 → LtHash) (rows : List AccountRow) : LtHash × ℕ :=
  (((rows.filter fun row => decide (0 < row.lamports)).map fun row => row.ltHash expand).sum,
    (rows.filter fun row => decide (0 < row.lamports)).length)

private theorem foldl_hashRow (expand : List UInt8 → LtHash) (rows : List AccountRow) (state : LtHash × ℕ) :
    rows.foldl (hashRow expand) state = state + liveRows expand rows := by
  induction rows generalizing state with
  | nil => exact (add_zero state).symm
  | cons row rest ih =>
    rw [List.foldl_cons, ih, hashRow, liveRows, liveRows, List.filter_cons]
    by_cases closed : row.lamports ≤ 0
    · rw [if_pos closed, if_neg (by simpa using closed)]
    · rw [if_neg closed, if_pos (by simpa using closed), List.map_cons, List.sum_cons, List.length_cons]
      ext1
      · exact add_assoc _ _ _
      · exact (add_assoc _ _ _).trans (congrArg _ (add_comm _ _))

/-- The answers of all batches hold one newest row for each key. -/
theorem oneNewest_batches {arrange : ℕ → List AccountRow → List AccountRow}
    (arranges : ∀ pre rows, (arrange pre rows).Perm rows)
    (selected : NewestSelectedRows programs (upTo targetSlot (accounts ++ snapshotAccounts))) :
    OneNewest AccountRow.pubkey AccountRow.stamp (upTo targetSlot (accounts ++ snapshotAccounts))
      ((List.range 0x10000).flatMap
        (queryAccountsBatch arrange accounts snapshotAccounts targetSlot (buildOwnerFilter programs))) := by
  constructor
  · intro row member
    obtain ⟨pre, isBatch, inAnswer⟩ := List.mem_flatMap.mp member
    exact ((query_spec arranges selected (List.mem_range.mp isBatch)).2.1 row inAnswer).1
  · rw [List.map_flatMap, List.nodup_flatMap]
    refine ⟨fun pre isBatch => (query_spec arranges selected (List.mem_range.mp isBatch)).1,
      List.nodup_range.pairwise_of_forall_ne fun pre isBatch other isOther differs => ?_⟩
    intro pubkey inFirst inSecond
    obtain ⟨row, inAnswer, rfl⟩ := List.mem_map.mp inFirst
    obtain ⟨second, inOther, same⟩ := List.mem_map.mp inSecond
    have first := ((query_spec arranges selected (List.mem_range.mp isBatch)).2.1 row inAnswer).2.1
    have again := ((query_spec arranges selected (List.mem_range.mp isOther)).2.1 second inOther).2.1
    rw [same, first] at again
    exact differs again
  · intro row member
    obtain ⟨pre, isBatch, inAnswer⟩ := List.mem_flatMap.mp member
    exact ((query_spec arranges selected (List.mem_range.mp isBatch)).2.1 row inAnswer).2.2
  · intro row member
    have within := keyPrefix_lt row.pubkey
    obtain ⟨kept, inAnswer, same⟩ := (query_spec arranges selected within).2.2 row member rfl
    exact ⟨kept, List.mem_flatMap.mpr ⟨_, List.mem_range.mpr within, inAnswer⟩, same⟩

/-- The scan hashes and counts one newest row for each key of the two tables, where it is live, and every key is
in one batch. -/
theorem dbLtHash_covers_once (expand : List UInt8 → LtHash) (arrange : ℕ → List AccountRow → List AccountRow)
    (accounts snapshotAccounts : List AccountRow) (targetSlot : ℕ) (programs : AccountSelectorConfig)
    (arranges : ∀ pre rows, (arrange pre rows).Perm rows)
    (selected : NewestSelectedRows programs (upTo targetSlot (accounts ++ snapshotAccounts))) :
    (∀ pubkey, ∃! pre, pre < 0x10000 ∧ inBatch pre pubkey = true) ∧
      ∃ newest, OneNewest AccountRow.pubkey AccountRow.stamp (upTo targetSlot (accounts ++ snapshotAccounts)) newest ∧
        computeDbLtHash arrange expand accounts snapshotAccounts targetSlot programs = liveRows expand newest := by
  refine ⟨existsUnique_batch, _, oneNewest_batches arranges selected, ?_⟩
  rw [computeDbLtHash, ← List.foldl_flatMap, foldl_hashRow]
  exact zero_add _

/-- A row in each table for one account, and a closed account. -/
def twoTables : List AccountRow × List AccountRow :=
  ([⟨7, 5, 3, false, [], 10, 1⟩, ⟨8, 0, 3, false, [], 9, 1⟩], [⟨7, 4, 4, false, [], 8, 2⟩, ⟨9, 6, 3, false, [], 8, 1⟩])

theorem dbLtHash_covers_once_twoTables :
    ∃ newest, OneNewest AccountRow.pubkey AccountRow.stamp (upTo 10 (twoTables.1 ++ twoTables.2)) newest ∧
      computeDbLtHash (fun _ rows => rows) (fun _ => 1) twoTables.1 twoTables.2 10 ⟨[3], []⟩ =
        liveRows (fun _ => 1) newest :=
  (dbLtHash_covers_once (fun _ => 1) (fun _ rows => rows) twoTables.1 twoTables.2 10 ⟨[3], []⟩
    (fun _ _ => List.Perm.refl _) (by decide +kernel)).2

end Cloudbreak.Model.Snapshot
