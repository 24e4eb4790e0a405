import Cloudbreak.Proofs.Supply.Exact

/-! # The latest row of an account

The miss read returns the row of an account with the highest slot. Which row that is depends only on
which rows are stored for the account, not on their order, and a saved block pushes at most one row.
-/

namespace Cloudbreak.Model.Supply

open NonCirculating (versionAt)

/-- The latest row of an account as a miss read returns it. -/
def rowOf (rows : List StoredRow) (key : Pubkey) : Option PrevRow :=
  (latestRow rows key).map fun row => ⟨row.lamports, row.slot⟩

section RowOf

variable {rows : List StoredRow} {key : Pubkey}

theorem rowOf_eq_none : rowOf rows key = none ↔ ∀ row ∈ rows, row.pubkey ≠ key := by
  unfold rowOf latestRow
  rw [Option.map_eq_none_iff, List.argmax_eq_none, List.filter_eq_nil_iff]
  simp only [decide_eq_true_eq]

theorem rowOf_eq_some {latest : PrevRow} :
    rowOf rows key = some latest ↔ ⟨key, latest.slot, latest.lamports⟩ ∈ rows ∧
      ∀ row ∈ rows, row.pubkey = key → toLex (row.slot, row.lamports) ≤ toLex (latest.slot, latest.lamports) := by
  have bound : ∀ {row : StoredRow}, latestRow rows key = some row → (row ∈ rows ∧ row.pubkey = key) ∧
      ∀ other ∈ rows, other.pubkey = key → toLex (other.slot, other.lamports) ≤ toLex (row.slot, row.lamports) := by
    intro row found
    have member := List.mem_filter.mp (List.argmax_mem found)
    refine ⟨⟨member.1, by simpa using member.2⟩, fun other inside same => ?_⟩
    have candidate : other ∈ rows.filter fun row => row.pubkey = key :=
      List.mem_filter.mpr ⟨inside, by simpa using same⟩
    have notLess := List.not_lt_of_mem_argmax candidate (show row ∈ latestRow rows key from found)
    exact not_lt.mp notLess
  unfold rowOf
  constructor
  · intro found
    obtain ⟨row, isLatest, rfl⟩ := Option.map_eq_some_iff.mp found
    obtain ⟨⟨member, rfl⟩, highest⟩ := bound isLatest
    exact ⟨member, highest⟩
  · rintro ⟨member, highest⟩
    cases found : latestRow rows key with
    | none =>
      have absent := rowOf_eq_none.mp (show rowOf rows key = none by rw [rowOf, found]; rfl)
      exact absurd rfl (absent _ member)
    | some row =>
      obtain ⟨⟨inside, same⟩, highest'⟩ := bound found
      have equal := le_antisymm (highest row inside same) (highest' _ member rfl)
      have fields := Prod.ext_iff.mp (toLex_inj.mp equal)
      exact congrArg some (by cases latest; cases row; simp_all)

private theorem rowOf_isSome : (rowOf rows key).isSome = true ↔ key ∈ rows.map StoredRow.pubkey := by
  rw [← not_iff_not, Bool.not_eq_true, Option.isSome_eq_false_iff, Option.isNone_iff_eq_none, rowOf_eq_none,
    List.mem_map, not_exists]
  exact forall_congr' fun row => not_and.symm

/-- Only the rows of the account matter. -/
theorem rowOf_congr {others : List StoredRow} (same : ∀ row, row.pubkey = key → (row ∈ others ↔ row ∈ rows)) :
    rowOf others key = rowOf rows key := by
  apply Option.ext
  intro latest
  rw [rowOf_eq_some, rowOf_eq_some, same _ rfl]
  refine and_congr_right fun _ => forall_congr' fun row => ?_
  constructor
  · exact fun highest inside isKey => highest ((same row isKey).mpr inside) isKey
  · exact fun highest inside isKey => highest ((same row isKey).mp inside) isKey

/-- One more row of the account is pushed onto its latest one. -/
theorem rowOf_push {others : List StoredRow} {new : PrevRow}
    (pushed : ∀ row, row.pubkey = key → (row ∈ others ↔ row ∈ rows ∨ row = ⟨key, new.slot, new.lamports⟩)) :
    rowOf others key = pushRow (rowOf rows key) new := by
  have isNew : ∀ row : StoredRow, row = ⟨key, new.slot, new.lamports⟩ → row.pubkey = key := by rintro _ rfl; rfl
  cases before : rowOf rows key with
  | none =>
    rw [rowOf_eq_none] at before
    refine rowOf_eq_some.mpr ⟨(pushed _ rfl).mpr (Or.inr rfl), fun row inside same => ?_⟩
    rcases (pushed row same).mp inside with old | rfl
    · exact absurd same (before row old)
    · exact le_rfl
  | some old =>
    obtain ⟨member, highest⟩ := rowOf_eq_some.mp before
    simp only [pushRow]
    split
    · next newer =>
      refine rowOf_eq_some.mpr ⟨(pushed _ rfl).mpr (Or.inr rfl), fun row inside same => ?_⟩
      rcases (pushed row same).mp inside with known | rfl
      · exact (highest row known same).trans newer.le
      · exact le_rfl
    · next notNewer =>
      refine rowOf_eq_some.mpr ⟨(pushed _ rfl).mpr (Or.inl member), fun row inside same => ?_⟩
      rcases (pushed row same).mp inside with known | rfl
      · exact highest row known same
      · exact not_lt.mp notNewer

end RowOf

namespace Indexer

/-- The latest stored row of an account. -/
def row (indexer : Indexer) (key : Pubkey) : Option PrevRow := rowOf indexer.rows key

theorem fetchPrevBalances_all (indexer : Indexer) (key : Pubkey) :
    indexer.fetchPrevBalances none key = indexer.row key := by
  simp [fetchPrevBalances, row, rowOf]

/-- A bounded read is the unbounded one while every row of the account lies below the bound. -/
theorem fetchPrevBalances_below (indexer : Indexer) {slot : ℕ} {key : Pubkey}
    (below : ∀ latest, indexer.row key = some latest → latest.slot < slot) :
    indexer.fetchPrevBalances (some slot) key = indexer.row key := by
  refine rowOf_congr fun row same => ?_
  rw [List.mem_filter]
  refine and_iff_left_of_imp fun inside => ?_
  cases latest : indexer.row key with
  | none => exact absurd same (rowOf_eq_none.mp latest row inside)
  | some latest_ =>
    have highest := (rowOf_eq_some.mp latest).2 row inside same
    have := below latest_ latest
    have le : row.slot ≤ latest_.slot := by
      rcases Prod.Lex.toLex_le_toLex.mp highest with less | equal
      · exact less.le
      · exact equal.1.le
    simp only [Option.all_some, decide_eq_true_eq]
    omega

/-- The tables after a block whose rows were stored. -/
theorem row_saved_of_mem (indexer : Indexer) {slot : ℕ} {accounts : List AccountInfo}
    (distinct : (accounts.map AccountInfo.pubkey).Nodup) {account : AccountInfo} (member : account ∈ accounts) :
    rowOf ((indexer.accounts ++ indexer.blockRows slot accounts) ++ indexer.snapshotAccounts) account.pubkey =
      rowAfter indexer.snapshotFinished (versionAt slot account) (indexer.row account.pubkey) := by
  have only : ∀ other ∈ accounts, other.pubkey = account.pubkey → other = account :=
    fun other inside same => List.inj_on_of_nodup_map distinct inside member same
  have blockRow : ∀ row : StoredRow, row.pubkey = account.pubkey →
      (row ∈ indexer.blockRows slot accounts ↔ (account.lamports ≠ 0 ∨
        (indexer.snapshotFinished = true ∧ (indexer.row account.pubkey).isSome = true)) ∧
          row = ⟨account.pubkey, slot, account.lamports⟩) := by
    intro row same
    have known : (indexer.row account.pubkey).isSome = true ↔ account.pubkey ∈ indexer.rows.map StoredRow.pubkey :=
      rowOf_isSome
    rw [known]
    simp only [blockRows, List.mem_append, List.mem_map, List.mem_filter, decide_eq_true_eq, Bool.and_eq_true]
    constructor
    · rintro (⟨other, ⟨inside, nonzero⟩, rfl⟩ | ⟨other, ⟨inside, ⟨zero, finished⟩, stored⟩, rfl⟩)
      · rw [only other inside same] at nonzero ⊢
        exact ⟨Or.inl nonzero, rfl⟩
      · rw [only other inside same] at zero stored ⊢
        exact ⟨Or.inr ⟨finished, stored⟩, by rw [zero]⟩
    · rintro ⟨stores, rfl⟩
      by_cases zero : account.lamports = 0
      · have stores := stores.resolve_left (not_not.mpr zero)
        exact Or.inr ⟨account, ⟨member, ⟨zero, stores.1⟩, stores.2⟩, by rw [zero]⟩
      · exact Or.inl ⟨account, ⟨member, zero⟩, rfl⟩
  unfold rowAfter
  split
  · next stores =>
    refine rowOf_push fun row same => ?_
    rw [List.mem_append, List.mem_append, blockRow row same, rows, List.mem_append]
    have stores : (account.lamports ≠ 0 ∨
        (indexer.snapshotFinished = true ∧ (indexer.row account.pubkey).isSome = true)) := stores
    simp only [stores, true_and]
    tauto
  · next skips =>
    refine rowOf_congr fun row same => ?_
    have skips : ¬(account.lamports ≠ 0 ∨
        (indexer.snapshotFinished = true ∧ (indexer.row account.pubkey).isSome = true)) := skips
    rw [List.mem_append, List.mem_append, blockRow row same, rows, List.mem_append]
    simp only [skips, false_and, or_false]

theorem row_saved_of_not_mem (indexer : Indexer) {slot : ℕ} {accounts : List AccountInfo} {key : Pubkey}
    (absent : key ∉ accounts.map AccountInfo.pubkey) :
    rowOf ((indexer.accounts ++ indexer.blockRows slot accounts) ++ indexer.snapshotAccounts) key = indexer.row key := by
  refine rowOf_congr fun row same => ?_
  have notBlock : row ∉ indexer.blockRows slot accounts := by
    simp only [blockRows, List.mem_append, List.mem_map, List.mem_filter, not_or, not_exists, not_and, and_imp]
    constructor
    · rintro other inside _ rfl
      exact absent (same ▸ List.mem_map_of_mem inside)
    · rintro other inside _ rfl
      exact absent (same ▸ List.mem_map_of_mem inside)
  rw [List.mem_append, List.mem_append, rows, List.mem_append]
  simp only [notBlock, or_false]

end Indexer

end Cloudbreak.Model.Supply
