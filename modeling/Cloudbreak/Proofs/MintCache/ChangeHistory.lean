import Cloudbreak.Model.MintCache.Indexer
import Cloudbreak.Proofs.MintCache.StoredMint

/-! # The store as the last row of its history

A change of a key gives the row that the table should hold for it next. The last row of each key is the one
the store would write now, the slots of a key never go back, and a key waits for a write at the slot of its
last row.
-/

namespace Cloudbreak.Model.MintCache

open Cloudbreak.ToMathlib

/-- The last row of a key. -/
def latest (changes : List MintRow) (pubkey : Pubkey) : Option MintRow :=
  changes.reverse.find? fun row => decide (row.pubkey = pubkey)

private theorem latest_concat (changes : List MintRow) (row : MintRow) (pubkey : Pubkey) :
    latest (changes ++ [row]) pubkey = if row.pubkey = pubkey then some row else latest changes pubkey := by
  rw [latest, List.reverse_append, List.reverse_singleton, List.singleton_append]
  split
  · next same => exact List.find?_cons_of_pos (by simpa using same)
  · next differs => exact List.find?_cons_of_neg (by simpa using differs)

theorem pubkey_of_latest {changes : List MintRow} {pubkey : Pubkey} {row : MintRow}
    (isLatest : latest changes pubkey = some row) : row.pubkey = pubkey := by
  simpa using List.find?_some isLatest

theorem mem_of_latest {changes : List MintRow} {pubkey : Pubkey} {row : MintRow}
    (isLatest : latest changes pubkey = some row) : row ∈ changes :=
  List.mem_reverse.mp (List.mem_of_find?_eq_some isLatest)

/-- From any row of a key on, its last row is to come. -/
theorem exists_latest_suffix (before : List MintRow) (row : MintRow) (after : List MintRow) :
    ∃ last ∈ row :: after, latest (before ++ row :: after) row.pubkey = some last := by
  have found : ∃ last, (row :: after).reverse.find? (fun other => decide (other.pubkey = row.pubkey)) = some last := by
    refine Option.isSome_iff_exists.mp (List.find?_isSome.mpr ⟨row, ?_, by simp⟩)
    exact List.mem_reverse.mpr (List.mem_cons_self ..)
  obtain ⟨last, isLast⟩ := found
  refine ⟨last, List.mem_reverse.mp (List.mem_of_find?_eq_some isLast), ?_⟩
  rw [latest, List.reverse_append, List.find?_append, isLast]
  rfl

/-- A key with no row among the new ones keeps its last row. -/
theorem latest_append_cases (changes rows : List MintRow) (pubkey : Pubkey) :
    (∃ row ∈ rows, row.pubkey = pubkey) ∨ latest (changes ++ rows) pubkey = latest changes pubkey := by
  cases found : rows.reverse.find? fun row => decide (row.pubkey = pubkey) with
  | some row =>
    have member := List.mem_reverse.mp (List.mem_of_find?_eq_some found)
    exact Or.inl ⟨row, member, by simpa using List.find?_some found⟩
  | none =>
    right
    rw [latest, latest, List.reverse_append, List.find?_append, found]
    rfl

/-- The slots of a key never go back. -/
def Ascending (changes : List MintRow) : Prop :=
  changes.Pairwise fun earlier later => earlier.pubkey = later.pubkey → earlier.slot ≤ later.slot

/-- The last row of a key has its highest slot. -/
theorem exists_latest_above {changes : List MintRow} (ascending : Ascending changes) {row : MintRow}
    (member : row ∈ changes) : ∃ last, latest changes row.pubkey = some last ∧ row.slot ≤ last.slot := by
  obtain ⟨before, after, whole⟩ := List.append_of_mem member
  obtain ⟨last, inside, isLatest⟩ := exists_latest_suffix before row after
  rw [← whole] at isLatest
  refine ⟨last, isLatest, ?_⟩
  rcases List.mem_cons.mp inside with rfl | later
  · exact le_rfl
  · rw [Ascending, whole, List.pairwise_append] at ascending
    exact (List.pairwise_cons.mp ascending.2.1).1 last later (pubkey_of_latest isLatest).symm

namespace StoredMint

/-- What a change leaves of its mint. -/
def changed (slot : ℕ) : MintChange → StoredMint
  | .live state => written slot state
  | .closed => .tombstone slot

/-- A mint that a write at a slot may change: not immutable, and not held at a higher slot. -/
def Changeable (slot : ℕ) : StoredMint → Prop
  | .immutable _ => False
  | .mutable entry => entry.slot ≤ slot
  | .tombstone closed => closed ≤ slot
  | .missing => True

/-- The row of a mint. -/
def row (pubkey : Pubkey) (slot : ℕ) : StoredMint → Option MintRow
  | .immutable decimals => some ⟨pubkey, slot, some (.ofDecimals decimals)⟩
  | .mutable entry => some ⟨pubkey, entry.slot, some entry.state⟩
  | .tombstone closed => some ⟨pubkey, closed, none⟩
  | .missing => none

end StoredMint

namespace MintStore

variable {store next : MintStore} {key other : Pubkey} {slot : ℕ} {change : MintChange} {kind : ChangeKind}

private theorem changeable_of_accepted (accepted : store.apply key slot change = (next, some kind)) :
    (store.get key).Changeable slot ∧ next.get key = StoredMint.changed slot change := by
  have after := get_apply store key key slot change
  rw [accepted, if_pos rfl] at after
  cases change with
  | live state =>
    simp only [apply, applyLive] at accepted
    split at accepted
    · simp at accepted
    · next unsealed =>
      split at accepted
      · simp at accepted
      · next found =>
        rw [liveKind] at found
        split at found
        · next closed _ held =>
          rw [get_eq_tombstone held] at after ⊢
          split at found
          · contradiction
          · next later =>
            rw [StoredMint.apply, StoredMint.applyLive, if_neg later] at after
            exact ⟨Nat.le_of_not_lt later, after⟩
        · next entry _ held =>
          rw [get_eq_mutable held] at after ⊢
          split at found
          · contradiction
          · next later =>
            rw [StoredMint.apply, StoredMint.applyLive, if_neg later] at after
            exact ⟨Nat.le_of_not_lt fun newer => later (Or.inl newer), after⟩
        · next closed held =>
          have missing : store.get key = .missing := by
            simp only [get, held, closed, HashMap.lookup_of_not_mem unsealed]
          rw [missing] at after ⊢
          exact ⟨trivial, after⟩
  | closed =>
    simp only [apply, close] at accepted
    split at accepted
    · simp at accepted
    · split at accepted
      · simp at accepted
      · split at accepted
        · next entry held =>
          rw [get_eq_mutable held] at after ⊢
          split at accepted
          · simp at accepted
          · next later =>
            rw [StoredMint.apply, StoredMint.close, if_neg later] at after
            exact ⟨Nat.le_of_not_lt later, after⟩
        · simp at accepted

theorem row_of_get_eq {held : StoredMint} (got : store.get key = held) (slot : ℕ) :
    store.row key slot = held.row key slot := got ▸ rfl

/-- The row of a changed key carries the slot of the change. -/
theorem row_of_changed (got : store.get key = StoredMint.changed slot change) :
    ∃ state, store.row key slot = some ⟨key, slot, state⟩ := by
  cases change with
  | closed => exact ⟨none, row_of_get_eq got slot⟩
  | live state =>
    rw [StoredMint.changed, StoredMint.written] at got
    split at got
    · exact ⟨_, row_of_get_eq got slot⟩
    · exact ⟨_, row_of_get_eq got slot⟩

/-- A row of a changeable key is not newer. -/
theorem slot_le_of_changeable (changeable : (store.get key).Changeable slot) {row : MintRow}
    (isRow : store.row key row.slot = some row) : row.slot ≤ slot := by
  cases held : store.get key with
  | immutable decimals =>
    rw [held] at changeable
    exact changeable.elim
  | missing =>
    rw [row_of_get_eq held] at isRow
    contradiction
  | mutable entry =>
    rw [held] at changeable
    rw [row_of_get_eq held] at isRow
    cases isRow
    exact changeable
  | tombstone closed =>
    rw [held] at changeable
    rw [row_of_get_eq held] at isRow
    cases isRow
    exact changeable

end MintStore

/-- The history of the store's changes, and the keys that wait for a write. -/
structure Tracks (changes : List MintRow) (inner : Inner) : Prop where
  current : ∀ pubkey row, latest changes pubkey = some row → inner.store.row pubkey row.slot = some row
  queued : ∀ pubkey slot, inner.pendingToDb.lookup pubkey = some slot →
    ∃ row, latest changes pubkey = some row ∧ row.slot = slot
  ascending : Ascending changes

/-- The same state but for the store and the keys that wait. -/
structure SameBooks (before after : Inner) : Prop where
  lastSlot : after.lastSlot = before.lastSlot
  lowestGap : after.lowestGap = before.lowestGap
  lastDbSlot : after.lastDbSlot = before.lastDbSlot
  running : after.dbWriteRunning = before.dbWriteRunning
  waiting : ∀ pubkey, pubkey ∈ before.pendingToDb → pubkey ∈ after.pendingToDb

theorem SameBooks.refl (inner : Inner) : SameBooks inner inner := ⟨rfl, rfl, rfl, rfl, fun _ => id⟩

theorem SameBooks.trans {first second third : Inner} (left_ : SameBooks first second)
    (right_ : SameBooks second third) : SameBooks first third :=
  ⟨right_.lastSlot.trans left_.lastSlot, right_.lowestGap.trans left_.lowestGap,
    right_.lastDbSlot.trans left_.lastDbSlot, right_.running.trans left_.running,
    fun pubkey member => right_.waiting pubkey (left_.waiting pubkey member)⟩

namespace Inner

variable {inner next : Inner} {changes : List MintRow} {write : AccountWrite} {kind : ChangeKind}

/-- A write changes its key in the store, or nothing there. -/
theorem apply_cases (inner : Inner) (write : AccountWrite) :
    ((inner.apply write).2 = none ∧ (inner.apply write).1.store = inner.store ∧
      (inner.apply write).1.pendingToDb = inner.pendingToDb ∧ SameBooks inner (inner.apply write).1) ∨
    ∃ store kind, inner.store.apply write.pubkey write.slot write.change = (store, some kind) ∧
      inner.apply write = ({ inner with store }.markPending write.pubkey write.slot, some kind) := by
  rw [apply]
  split
  · exact Or.inl ⟨rfl, rfl, rfl, ⟨rfl, rfl, rfl, rfl, fun _ => id⟩⟩
  · split
    · exact Or.inl ⟨rfl, rfl, rfl, SameBooks.refl inner⟩
    · next store kind applied => exact Or.inr ⟨store, kind, applied, rfl⟩

theorem sameBooks_markPending (inner : Inner) (pubkey : Pubkey) (slot : ℕ) :
    SameBooks inner (inner.markPending pubkey slot) :=
  ⟨rfl, rfl, rfl, rfl, fun _ member => (AList.mem_insert _).mpr (Or.inr member)⟩

private theorem sameBooks_apply (inner : Inner) (write : AccountWrite) : SameBooks inner (inner.apply write).1 := by
  rcases inner.apply_cases write with ⟨_, _, _, same⟩ | ⟨store, kind, _, applied⟩
  · exact same
  · rw [applied]
    have marked := sameBooks_markPending { inner with store } write.pubkey write.slot
    exact ⟨marked.lastSlot, marked.lowestGap, marked.lastDbSlot, marked.running, marked.waiting⟩

theorem sameBooks_applyAll (inner : Inner) (writes : List AccountWrite) : SameBooks inner (inner.applyAll writes) := by
  induction writes generalizing inner with
  | nil => exact SameBooks.refl inner
  | cons write rest ih => exact (sameBooks_apply inner write).trans (ih _)

end Inner

/-- A changed key is queued at the slot of its last row. -/
theorem Tracks.accept {inner : Inner} {changes : List MintRow} {write : AccountWrite} {store : MintStore}
    {kind : ChangeKind} (tracks : Tracks changes inner)
    (applied : inner.store.apply write.pubkey write.slot write.change = (store, some kind)) :
    ∃ row, store.row write.pubkey write.slot = some row ∧ row.pubkey = write.pubkey ∧ row.slot = write.slot ∧
      Tracks (changes ++ [row]) ({ inner with store }.markPending write.pubkey write.slot) := by
  obtain ⟨changeable, got⟩ := MintStore.changeable_of_accepted applied
  obtain ⟨state, isRow⟩ := MintStore.row_of_changed got
  have below : ∀ row, latest changes write.pubkey = some row → row.slot ≤ write.slot := fun row isLatest =>
    MintStore.slot_le_of_changeable changeable (tracks.current write.pubkey row isLatest)
  refine ⟨_, isRow, rfl, rfl, ?_⟩
  constructor
  case current =>
    intro pubkey row isLatest
    rw [latest_concat] at isLatest
    split at isLatest
    · next same =>
      cases isLatest
      cases same
      exact isRow
    · next differs =>
      have others := MintStore.get_apply inner.store write.pubkey pubkey write.slot write.change
      rw [applied, if_neg fun equal => differs equal.symm] at others
      exact (MintStore.row_of_get_eq others row.slot).trans
        ((MintStore.row_of_get_eq rfl row.slot).symm.trans (tracks.current pubkey row isLatest))
  case queued =>
    intro pubkey slot isQueued
    rw [latest_concat]
    rw [Inner.markPending, HashMap.mergeMax, HashMap.lookup_insert] at isQueued
    by_cases same : write.pubkey = pubkey
    · subst same
      rw [if_pos rfl, Option.some.injEq] at isQueued
      refine ⟨_, if_pos rfl, ?_⟩
      rw [← isQueued]
      cases before : inner.pendingToDb.lookup write.pubkey with
      | none => simp
      | some old =>
        obtain ⟨row, isLatest, rfl⟩ := tracks.queued write.pubkey old before
        simp [below row isLatest]
    · rw [if_neg fun equal => same equal.symm] at isQueued
      rw [if_neg same]
      exact tracks.queued pubkey slot isQueued
  case ascending =>
    rw [Ascending, List.pairwise_append]
    refine ⟨tracks.ascending, List.pairwise_singleton _ _, ?_⟩
    intro earlier member later isLater same
    rw [List.mem_singleton] at isLater
    subst isLater
    obtain ⟨last, isLatest, bound⟩ := exists_latest_above tracks.ascending member
    rw [same] at isLatest
    exact bound.trans (below last isLatest)

/-- A run of writes, with the rows of its changes. -/
theorem Tracks.applyAll {inner : Inner} {changes : List MintRow} (tracks : Tracks changes inner)
    (writes : List AccountWrite) :
    Tracks (changes ++ MintIndexer.changedRows inner writes) (inner.applyAll writes) ∧
    ∀ row ∈ MintIndexer.changedRows inner writes,
      row.pubkey ∈ (inner.applyAll writes).pendingToDb ∧ ∃ write ∈ writes, row.slot = write.slot := by
  induction writes generalizing inner changes with
  | nil =>
    rw [MintIndexer.changedRows, List.append_nil]
    exact ⟨tracks, fun row member => absurd member List.not_mem_nil⟩
  | cons write rest ih =>
    rcases inner.apply_cases write with ⟨skipped, sameStore, samePending, _⟩ | ⟨store, kind, applied, accepted⟩
    · have still : Tracks changes (inner.apply write).1 :=
        ⟨sameStore ▸ tracks.current, samePending ▸ tracks.queued, tracks.ascending⟩
      have rowsOf : MintIndexer.changedRows inner (write :: rest) =
          MintIndexer.changedRows (inner.apply write).1 rest := by
        rw [MintIndexer.changedRows]
        simp [skipped]
      obtain ⟨kept, rows⟩ := ih still
      rw [rowsOf]
      refine ⟨kept, fun row member => ?_⟩
      obtain ⟨waits, other, inside, same⟩ := rows row member
      exact ⟨waits, other, List.mem_cons_of_mem _ inside, same⟩
    · obtain ⟨row, isRow, samePubkey, sameSlot, still⟩ := tracks.accept applied
      have rowsOf : MintIndexer.changedRows inner (write :: rest) =
          [row] ++ MintIndexer.changedRows ({ inner with store }.markPending write.pubkey write.slot) rest := by
        rw [MintIndexer.changedRows, accepted]
        change (store.row write.pubkey write.slot).toList ++ _ = _
        rw [isRow]
        rfl
      have whole : inner.applyAll (write :: rest) =
          ({ inner with store }.markPending write.pubkey write.slot).applyAll rest :=
        congrArg (Inner.applyAll · rest) (congrArg Prod.fst accepted)
      obtain ⟨kept, rows⟩ := ih still
      rw [whole, rowsOf, ← List.append_assoc]
      refine ⟨kept, fun other member => ?_⟩
      rcases List.mem_append.mp member with first | later
      · rw [List.mem_singleton] at first
        subst first
        refine ⟨(Inner.sameBooks_applyAll _ rest).waiting _ ?_, write, List.mem_cons_self .., sameSlot⟩
        rw [samePubkey]
        exact (AList.mem_insert _).mpr (Or.inl rfl)
      · obtain ⟨waits, source, inside, same⟩ := rows other later
        exact ⟨waits, source, List.mem_cons_of_mem _ inside, same⟩

/-- The rows a write takes are the last rows of the keys that waited. -/
theorem Tracks.mem_takePendingRows {inner : Inner} {changes : List MintRow} (tracks : Tracks changes inner)
    {row : MintRow} : row ∈ inner.takePendingRows.1 ↔
      row.pubkey ∈ inner.pendingToDb ∧ latest changes row.pubkey = some row := by
  rw [Inner.takePendingRows, List.mem_filterMap]
  constructor
  · rintro ⟨⟨pubkey, slot⟩, member, isRow⟩
    have waits := HashMap.mem_toList.mp member
    obtain ⟨last, isLatest, rfl⟩ := tracks.queued pubkey slot waits
    obtain rfl : last = row := Option.some.inj ((tracks.current pubkey last isLatest).symm.trans isRow)
    have samePubkey := pubkey_of_latest isLatest
    rw [samePubkey]
    exact ⟨AList.lookup_isSome.mp (by rw [waits]; rfl), isLatest⟩
  · rintro ⟨waits, isLatest⟩
    obtain ⟨slot, isQueued⟩ := Option.isSome_iff_exists.mp (AList.lookup_isSome.mpr waits)
    obtain ⟨last, isLast, rfl⟩ := tracks.queued row.pubkey slot isQueued
    obtain rfl : last = row := Option.some.inj (isLast.symm.trans isLatest)
    exact ⟨(last.pubkey, last.slot), HashMap.mem_toList.mpr isQueued, tracks.current last.pubkey last isLatest⟩

end Cloudbreak.Model.MintCache
