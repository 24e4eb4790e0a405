import Cloudbreak.Proofs.MintCache.ChangeHistory

/-! # What one write does to the table

A write carries the last rows of the keys that waited when it started. Row by row they replace older rows of
the same keys, so whatever the table was complete through it stays complete through, and at the end it has
every change made before the write started.
-/

namespace Cloudbreak.Model.MintCache

open Cloudbreak.ToMathlib

variable {changes taken later : List MintRow} {table : HashMap Pubkey MintRow} {remaining : List MintRow}
  {row : MintRow} {slot : ℕ}

/-- The table has, for every change up to a slot, the row of that change or of a later one. -/
def CompleteThrough (table : HashMap Pubkey MintRow) (changes : List MintRow) (slot : ℕ) : Prop :=
  ∀ before row after, changes = before ++ row :: after → row.slot ≤ slot →
    ∃ held ∈ row :: after, held.pubkey = row.pubkey ∧ table.lookup row.pubkey = some held

/-- The same up to the rows that a write still has to bring. -/
def Promised (table : HashMap Pubkey MintRow) (remaining taken : List MintRow) (slot : ℕ) : Prop :=
  ∀ before row after, taken = before ++ row :: after → row.slot ≤ slot →
    ∃ held ∈ row :: after, held.pubkey = row.pubkey ∧ (held ∈ remaining ∨ table.lookup row.pubkey = some held)

/-- Every row of the table is a row of the history. -/
def Stored (table : HashMap Pubkey MintRow) (changes : List MintRow) : Prop :=
  ∀ pubkey held, table.lookup pubkey = some held → held ∈ changes ∧ held.pubkey = pubkey

/-- Stored rows stay rows of a longer history. -/
theorem Stored.append {table : HashMap Pubkey MintRow} {changes : List MintRow} (stored : Stored table changes)
    (rows : List MintRow) : Stored table (changes ++ rows) := fun pubkey held isHeld =>
  ⟨List.mem_append_left _ (stored pubkey held isHeld).1, (stored pubkey held isHeld).2⟩

/-- A row among some rows, or later ones, comes from the first part when it is not above a slot that all later
ones are above. -/
theorem split_of_append {before after : List MintRow} (whole : taken ++ later = before ++ row :: after)
    (above : ∀ other ∈ later, slot < other.slot) (low : row.slot ≤ slot) :
    ∃ rest, taken = before ++ row :: rest ∧ after = rest ++ later := by
  rcases List.append_eq_append_iff.mp whole with ⟨tail, isBefore, isLater⟩ | ⟨tail, isTaken, isRest⟩
  · have member : row ∈ later := isLater ▸ List.mem_append_right _ (List.mem_cons_self ..)
    have := above row member
    omega
  · cases tail with
    | nil =>
      have member : row ∈ later := by
        rw [List.nil_append] at isRest
        exact isRest ▸ List.mem_cons_self ..
      have := above row member
      omega
    | cons first rest =>
      rw [List.cons_append, List.cons.injEq] at isRest
      obtain ⟨rfl, isAfter⟩ := isRest
      exact ⟨rest, isTaken, isAfter⟩

/-- New changes above a slot leave the table complete through it. -/
theorem CompleteThrough.append (complete : CompleteThrough table changes slot)
    (above : ∀ row ∈ later, slot < row.slot) : CompleteThrough table (changes ++ later) slot := by
  intro before row after whole low
  obtain ⟨rest, isChanges, rfl⟩ := split_of_append whole above low
  obtain ⟨held, inside, same, isHeld⟩ := complete before row rest isChanges low
  refine ⟨held, ?_, same, isHeld⟩
  rw [← List.cons_append]
  exact List.mem_append_left _ inside

/-- When nothing remains, what was promised is there. -/
theorem Promised.complete (promised : Promised table [] taken slot) (above : ∀ row ∈ later, slot < row.slot) :
    CompleteThrough table (taken ++ later) slot := by
  intro before row after whole low
  obtain ⟨rest, isTaken, rfl⟩ := split_of_append whole above low
  obtain ⟨held, inside, same, isHeld⟩ := promised before row rest isTaken low
  refine ⟨held, ?_, same, isHeld.resolve_left List.not_mem_nil⟩
  rw [← List.cons_append]
  exact List.mem_append_left _ inside

theorem lookup_upsertRow (ascending : Ascending taken) (stored : Stored table taken)
    (isLatest : latest taken row.pubkey = some row) (pubkey : Pubkey) :
    (upsertRow table row).lookup pubkey = if pubkey = row.pubkey then some row else table.lookup pubkey := by
  rw [upsertRow]
  split
  · next held isHeld =>
    obtain ⟨member, same⟩ := stored row.pubkey held isHeld
    obtain ⟨last, isLast, bound⟩ := exists_latest_above ascending member
    rw [same, isLatest, Option.some.injEq] at isLast
    rw [if_pos (isLast ▸ bound)]
    exact HashMap.lookup_insert _ _ _ _
  · exact HashMap.lookup_insert _ _ _ _

section Upsert

variable (ascending : Ascending taken) (stored : Stored table taken) (isLatest : latest taken row.pubkey = some row)

include ascending stored isLatest

theorem Stored.upsertRow : Stored (upsertRow table row) taken := by
  intro pubkey held isHeld
  rw [lookup_upsertRow ascending stored isLatest] at isHeld
  split at isHeld
  · next same =>
    cases isHeld
    exact ⟨mem_of_latest isLatest, same.symm⟩
  · exact stored pubkey held isHeld

/-- The row that replaces another is as late as any row of the key. -/
theorem CompleteThrough.upsertRow (complete : CompleteThrough table (taken ++ later) slot)
    (above : ∀ other ∈ later, slot < other.slot) : CompleteThrough (upsertRow table row) (taken ++ later) slot := by
  intro before change after whole low
  obtain ⟨rest, isTaken, rfl⟩ := split_of_append whole above low
  obtain ⟨held, inside, samePubkey, isHeld⟩ := complete before change (rest ++ later) whole low
  rw [lookup_upsertRow ascending stored isLatest]
  by_cases same : change.pubkey = row.pubkey
  · obtain ⟨last, isInside, isLast⟩ := exists_latest_suffix before change rest
    rw [← isTaken, same, isLatest, Option.some.injEq] at isLast
    refine ⟨row, ?_, same.symm, if_pos same⟩
    rw [isLast, ← List.cons_append]
    exact List.mem_append_left _ isInside
  · exact ⟨held, inside, samePubkey, (if_neg same).trans isHeld⟩

theorem Promised.upsertRow (promised : Promised table (row :: remaining) taken slot) :
    Promised (upsertRow table row) remaining taken slot := by
  intro before change after whole low
  obtain ⟨held, inside, samePubkey, promise⟩ := promised before change after whole low
  rw [lookup_upsertRow ascending stored isLatest]
  by_cases same : change.pubkey = row.pubkey
  · obtain ⟨last, isInside, isLast⟩ := exists_latest_suffix before change after
    rw [← whole, same, isLatest, Option.some.injEq] at isLast
    exact ⟨row, isLast ▸ isInside, same.symm, Or.inr (if_pos same)⟩
  · refine ⟨held, inside, samePubkey, ?_⟩
    rw [if_neg same]
    refine promise.imp_left fun member => ?_
    rcases List.mem_cons.mp member with rfl | rest
    · exact absurd samePubkey.symm same
    · exact rest

end Upsert

/-- A write under way: the changes it was started with, and what came later. -/
structure Writing (taken later : List MintRow) (published : List ℕ) (promise : Option ℕ) (Waits : Pubkey → Prop)
    (table : HashMap Pubkey MintRow) (remaining : List MintRow) : Prop where
  stored : Stored table taken
  rows : ∀ row ∈ remaining, latest taken row.pubkey = some row
  complete : ∀ slot ∈ published, CompleteThrough table (taken ++ later) slot
  promised : ∀ slot, promise = some slot → Promised table remaining taken slot
  located : ∀ pubkey row, latest taken pubkey = some row →
    Waits pubkey ∨ row ∈ remaining ∨ table.lookup pubkey = some row

variable {published : List ℕ} {promise : Option ℕ} {Waits : Pubkey → Prop}

theorem Writing.upsertRow (writing : Writing taken later published promise Waits table (row :: remaining))
    (ascending : Ascending taken) (above : ∀ slot ∈ published, ∀ other ∈ later, slot < other.slot) :
    Writing taken later published promise Waits (upsertRow table row) remaining := by
  have isLatest := writing.rows row (List.mem_cons_self ..)
  constructor
  case stored => exact writing.stored.upsertRow ascending isLatest
  case rows => exact fun other member => writing.rows other (List.mem_cons_of_mem _ member)
  case complete =>
    intro slot member
    exact (writing.complete slot member).upsertRow ascending writing.stored isLatest (above slot member)
  case promised =>
    intro slot isPromise
    exact (writing.promised slot isPromise).upsertRow ascending writing.stored isLatest
  case located =>
    intro pubkey last isLast
    rw [lookup_upsertRow ascending writing.stored isLatest]
    by_cases same : pubkey = row.pubkey
    · subst same
      rw [isLatest, Option.some.injEq] at isLast
      exact Or.inr (Or.inr (isLast ▸ if_pos rfl))
    · rw [if_neg same]
      rcases writing.located pubkey last isLast with waits | inside | held
      · exact Or.inl waits
      · rcases List.mem_cons.mp inside with rfl | rest
        · exact absurd (pubkey_of_latest isLast).symm same
        · exact Or.inr (Or.inl rest)
      · exact Or.inr (Or.inr held)

theorem Writing.upsertRows {chunk : List MintRow}
    (writing : Writing taken later published promise Waits table (chunk ++ remaining))
    (ascending : Ascending taken) (above : ∀ slot ∈ published, ∀ other ∈ later, slot < other.slot) :
    Writing taken later published promise Waits (chunk.foldl MintCache.upsertRow table) remaining := by
  induction chunk generalizing table with
  | nil => exact writing
  | cons row rest ih => exact ih (writing.upsertRow ascending above)

end Cloudbreak.Model.MintCache
