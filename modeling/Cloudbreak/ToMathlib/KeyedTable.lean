import Mathlib

/-! # Tables with a primary key

An insert statement stores all of its rows, or none where two rows of the table would share a key. Statements that
have no row in common store all rows, in whatever order they run, exactly if no two of them share a key.
-/

namespace Cloudbreak.ToMathlib

variable {ι κ : Type*} [DecidableEq κ] {key : ι → κ}

structure KeyedTable (key : ι → κ) where
  rows : List ι
  keyed : (rows.map key).Nodup

namespace KeyedTable

variable {table : KeyedTable key} {statement : List ι} {statements : List (List ι)}

instance : EmptyCollection (KeyedTable key) := ⟨⟨[], List.nodup_nil⟩⟩

/-- One insert statement. -/
def insert (table : KeyedTable key) (statement : List ι) : KeyedTable key :=
  if keyed : ((table.rows ++ statement).map key).Nodup then ⟨table.rows ++ statement, keyed⟩ else table

def insertAll (table : KeyedTable key) (statements : List (List ι)) : KeyedTable key :=
  statements.foldl insert table

theorem rows_insert_of_nodup (keyed : ((table.rows ++ statement).map key).Nodup) :
    (table.insert statement).rows = table.rows ++ statement := by
  rw [insert, dif_pos keyed]

theorem insert_of_not_nodup (collides : ¬((table.rows ++ statement).map key).Nodup) :
    table.insert statement = table := dif_neg collides

theorem rows_insertAll_of_nodup (keyed : ((table.rows ++ statements.flatten).map key).Nodup) :
    (table.insertAll statements).rows = table.rows ++ statements.flatten := by
  induction statements generalizing table with
  | nil => exact (List.append_nil _).symm
  | cons statement rest ih =>
    rw [List.flatten_cons, ← List.append_assoc] at keyed ⊢
    have first : ((table.rows ++ statement).map key).Nodup := by
      rw [List.map_append] at keyed
      exact (List.nodup_append'.mp keyed).1
    have stored := rows_insert_of_nodup first
    rw [← stored] at keyed ⊢
    exact ih keyed

/-- Rows that are stored in the end were stored by their own statement. -/
theorem rows_insertAll_of_stored (disjoint : statements.Pairwise List.Disjoint)
    (new : ∀ row ∈ statements.flatten, row ∉ table.rows)
    (stored : ∀ row ∈ statements.flatten, row ∈ (table.insertAll statements).rows) :
    (table.insertAll statements).rows = table.rows ++ statements.flatten := by
  induction statements generalizing table with
  | nil => exact (List.append_nil _).symm
  | cons statement rest ih =>
    obtain ⟨apart, disjoint⟩ := List.pairwise_cons.mp disjoint
    have elsewhere : ∀ row ∈ statement, row ∉ rest.flatten := by
      intro row member later
      obtain ⟨other, isLater, inOther⟩ := List.mem_flatten.mp later
      exact apart other isLater member inOther
    rw [List.flatten_cons] at new stored ⊢
    have later : ∀ row ∈ rest.flatten, row ∈ ((table.insert statement).insertAll rest).rows := fun row member =>
      stored row (List.mem_append_right _ member)
    by_cases keyed : ((table.rows ++ statement).map key).Nodup
    · have inserted := rows_insert_of_nodup keyed
      have ended := ih disjoint (fun row member known => ?_) later
      · exact ended.trans (by rw [inserted, List.append_assoc])
      · rw [inserted] at known
        rcases List.mem_append.mp known with before | now
        · exact new row (List.mem_append_right _ member) before
        · exact elsewhere row now member
    · -- A statement that fails leaves the table, and so none of its rows could be there in the end.
      rw [insert_of_not_nodup keyed] at later
      have ended := ih disjoint (fun row member => new row (List.mem_append_right _ member)) later
      have empty : statement = [] := by
        refine List.eq_nil_iff_forall_not_mem.mpr fun row member => ?_
        have found := stored row (List.mem_append_left _ member)
        rw [insertAll, List.foldl_cons, insert_of_not_nodup keyed, ← insertAll, ended] at found
        rcases List.mem_append.mp found with before | after
        · exact new row (List.mem_append_left _ member) before
        · exact elsewhere row member after
      rw [empty, List.append_nil] at keyed
      exact absurd table.keyed keyed

/-- All rows are stored exactly if no two of them share a key, with the rows of the table. -/
theorem insertAll_complete_iff (disjoint : statements.Pairwise List.Disjoint)
    (new : ∀ row ∈ statements.flatten, row ∉ table.rows) :
    (∀ row ∈ statements.flatten, row ∈ (table.insertAll statements).rows) ↔
      ((table.rows ++ statements.flatten).map key).Nodup := by
  constructor
  · intro stored
    rw [← rows_insertAll_of_stored disjoint new stored]
    exact (table.insertAll statements).keyed
  · intro keyed row member
    rw [rows_insertAll_of_nodup keyed]
    exact List.mem_append_right _ member

theorem mem_of_mem_insertAll {row : ι} (member : row ∈ (table.insertAll statements).rows) :
    row ∈ table.rows ∨ row ∈ statements.flatten := by
  induction statements generalizing table with
  | nil => exact Or.inl member
  | cons statement rest ih =>
    rw [List.flatten_cons]
    rcases ih member with inserted | later
    · rw [insert] at inserted
      split at inserted
      · exact (List.mem_append.mp inserted).imp id (List.mem_append_left _)
      · exact Or.inl inserted
    · exact Or.inr (List.mem_append_right _ later)

end KeyedTable

omit [DecidableEq κ] in
/-- Keys that tell apart what a coarser key tells apart are distinct if they are for each coarser key. -/
theorem nodup_map_iff_filter {ν : Type*} [DecidableEq ν] {coarse : ι → ν}
    (finer : ∀ first second, key first = key second → coarse first = coarse second) (items : List ι) :
    (items.map key).Nodup ↔ ∀ part, ((items.filter fun item => decide (coarse item = part)).map key).Nodup := by
  constructor
  · exact fun distinct part => distinct.sublist (List.filter_sublist.map key)
  · intro parts
    induction items with
    | nil => exact List.nodup_nil
    | cons item rest ih =>
      rw [List.map_cons, List.nodup_cons]
      refine ⟨fun again => ?_, ih fun part => (parts part).sublist ?_⟩
      · obtain ⟨other, member, same⟩ := List.mem_map.mp again
        have own := parts (coarse item)
        rw [List.filter_cons_of_pos (by simp), List.map_cons, List.nodup_cons] at own
        exact own.1 (List.mem_map.mpr ⟨other, List.mem_filter.mpr ⟨member, by simpa using finer _ _ same⟩, same⟩)
      · exact ((List.sublist_cons_self item rest).filter _).map key

end Cloudbreak.ToMathlib
