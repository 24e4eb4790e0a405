import Cloudbreak.Proofs.MintCache.Told

/-! # What the reads of the table bring

A table that is complete through a slot has for every mint the row of its newest write, or of one as late as
that slot. A page of the load and the rows of a reload bring exactly these, and a mint that a reload does not
bring has not changed.
-/

namespace Cloudbreak.Model.MintCache

open Cloudbreak.ToMathlib
open ConfirmedChain (ofKey told_changed told_of_version closed_of_not_live)

namespace MintStore

theorem get_applyRow (store : MintStore) (key other : Pubkey) (slot : ℕ) (state : Option MintState) :
    (store.applyRow key slot state).1.get other =
      if other = key then (store.get key).applyRow slot state else store.get other := by
  cases state with
  | some state => exact get_applyLive store key other slot state
  | none => exact get_close store key other slot false

theorem get_applyRows_of_not_mem {rows : List MintRow} (store : MintStore) {key : Pubkey}
    (absent : key ∉ rows.map MintRow.pubkey) : (store.applyRows rows).get key = store.get key := by
  induction rows generalizing store with
  | nil => rfl
  | cons row rest ih =>
    rw [List.map_cons, List.mem_cons, not_or] at absent
    exact (ih _ absent.2).trans ((get_applyRow store row.pubkey key row.slot row.state).trans (if_neg absent.1))

theorem get_applyRows_of_mem {rows : List MintRow} (store : MintStore) {row : MintRow}
    (distinct : (rows.map MintRow.pubkey).Nodup) (member : row ∈ rows) :
    (store.applyRows rows).get row.pubkey = (store.get row.pubkey).applyRow row.slot row.state := by
  induction rows generalizing store with
  | nil => contradiction
  | cons first rest ih =>
    rw [List.map_cons, List.nodup_cons] at distinct
    have step := get_applyRow store first.pubkey row.pubkey first.slot first.state
    rcases List.mem_cons.mp member with rfl | later
    · exact (get_applyRows_of_not_mem _ distinct.1).trans (step.trans (if_pos rfl))
    · have differs : row.pubkey ≠ first.pubkey := fun same =>
        distinct.1 (same ▸ List.mem_map_of_mem later)
      refine (ih _ distinct.2 later).trans ?_
      rw [step, if_neg differs]

theorem get_applyBlock (store : MintStore) (key : Pubkey) (slot : ℕ) (changes : List (Pubkey × MintChange)) :
    (store.applyBlock slot changes).get key = (store.get key).applySlot slot (ofKey key changes) := by
  induction changes generalizing store with
  | nil => rfl
  | cons change rest ih =>
    have step := get_apply store change.1 key slot change.2
    refine (ih _).trans ?_
    rw [step]
    by_cases same : change.1 = key
    · rw [if_pos same.symm, same, ofKey, ofKey, List.filter_cons_of_pos (by simpa using same)]
      rfl
    · rw [if_neg (Ne.symm same), ofKey, ofKey, List.filter_cons_of_neg (by simpa using same)]

end MintStore

namespace ConfirmedChain

variable {chain : ConfirmedChain} {key : Pubkey} {known last slot : ℕ} {held : StoredMint} {state : Option MintState}
  {table : HashMap Pubkey MintRow} {row : MintRow}

/-- A table that is complete through a slot. -/
structure Covers (chain : ConfirmedChain) (last : ℕ) (table : HashMap Pubkey MintRow) : Prop where
  rows : ∀ key row, table.lookup key = some row →
    row.pubkey = key ∧ chain.Lasts key row.slot (max last row.slot) row.change
  absent : ∀ key, table.lookup key = none → chain.NotLive key chain.firstDbSlot last

instance (chain : ConfirmedChain) (last : ℕ) (table : HashMap Pubkey MintRow) : Decidable (chain.Covers last table) :=
  decidable_of_iff ((∀ item ∈ table.toList, item.2.pubkey = item.1 ∧
      chain.Lasts item.1 item.2.slot (max last item.2.slot) item.2.change) ∧
    ∀ write ∈ chain.writes, table.lookup write.pubkey = none → chain.NotLive write.pubkey chain.firstDbSlot last) (by
    constructor
    · intro checked
      refine ⟨fun key row isRow => checked.1 (key, row) (HashMap.mem_toList.mpr isRow), ?_⟩
      intro key isAbsent slot low high state isLive
      obtain ⟨at_, _, isWrite⟩ := exists_write_of_newest isLive
      exact checked.2 _ isWrite isAbsent slot low high state isLive
    · intro covers
      exact ⟨fun item member => covers.rows item.1 item.2 (HashMap.mem_toList.mp member),
        fun write _ => covers.absent write.pubkey⟩)

/-- A row read of a table complete through a slot. When it repeats a version the store has, that version must
have lasted until the row. -/
theorem Told.applyRow (told : chain.Told known key held) (firstLast : chain.firstDbSlot ≤ last)
    (lasts : chain.Lasts key slot (max last slot) (state.elim .closed .live))
    (repeats : ∀ version ∈ held.version, version.2 = state.elim .closed .live → chain.Lasts key version.1 slot version.2) :
    chain.Told (max known last) key (held.applyRow slot state) := by
  rw [StoredMint.applyRow_eq]
  split
  · next missing =>
    subst missing
    refine told_changed fun other low high => ?_
    by_cases within : other ≤ max last slot
    · exact lasts other low within
    · have isNewest := lasts (max last slot) (le_max_right _ _) le_rfl
      cases state with
      | some state => exact absurd isNewest (told (max last slot) (by omega) (by omega) state)
      | none =>
        refine closed_of_not_live isNewest (fun between above under => told between (by omega) under) other (by omega)
          (by omega : other ≤ known)
  · next present =>
    rcases StoredMint.apply_cases held slot (state.elim .closed .live) with
      ⟨same, ⟨decimals, rfl⟩ | ⟨version, isVersion, late⟩ | ⟨missing, _⟩⟩ |
      ⟨is_, ⟨version, isVersion, low, differs⟩ | ⟨missing, _⟩⟩
    · rw [same]
      exact told
    · rw [same]
      have before := (told_of_version isVersion).mp told
      refine (told_of_version isVersion).mpr fun other low high => ?_
      by_cases within : other ≤ max known version.1
      · exact before other low within
      · rcases late with newer | equal
        · have here := before version.1 le_rfl (le_max_right _ _)
          have there := lasts version.1 (by omega) (by omega)
          rw [← here, there]
          exact lasts other (by omega) (by omega)
        · by_cases early : other < slot
          · exact repeats version isVersion equal.symm other low early.le
          · rw [← equal]
            exact lasts other (by omega) (by omega)
    · exact absurd missing present
    · rw [is_]
      refine told_changed fun other atLeast high => ?_
      by_cases within : other ≤ max last slot
      · exact lasts other atLeast within
      · have before := (told_of_version isVersion).mp told slot low (by omega)
        have here := lasts slot le_rfl (le_max_right _ _)
        exact absurd (Option.some.inj (here.symm.trans before)) differs
    · exact absurd missing present

/-- A mint whose row was not read: it has not changed since, or never had a row. -/
theorem Told.unread (told : chain.Told known key held) (first : chain.firstDbSlot ≤ known)
    (covers : chain.Covers last table) (old : ∀ row, table.lookup key = some row → row.slot ≤ known) :
    chain.Told (max known last) key held := by
  -- from the known slot on, the newest write is the table's
  have still : ∀ since other, known ≤ since → since ≤ other → other ≤ last → ∀ change,
      chain.newest key since = some change → chain.newest key other = some change := by
    intro since other low less high change isNewest
    cases isRow : table.lookup key with
    | some row =>
      obtain ⟨_, lasts⟩ := covers.rows key row isRow
      have := old row isRow
      have here := lasts since (by omega) (by omega)
      rw [← isNewest, here]
      exact lasts other (by omega) (by omega)
    | none =>
      have notLive := covers.absent key isRow
      cases change with
      | live state => exact absurd isNewest (notLive since (by omega) (by omega) state)
      | closed =>
        exact closed_of_not_live isNewest (fun between above under => notLive between (by omega) (by omega)) other less
          le_rfl
  have version : ∀ version, held.version = some version → chain.Told (max known last) key held := by
    intro version isVersion
    have before := (told_of_version isVersion).mp told
    refine (told_of_version isVersion).mpr fun other low high => ?_
    by_cases within : other ≤ max known version.1
    · exact before other low within
    · exact still (max known version.1) other (le_max_left _ _) (by omega) (by omega) version.2
        (before _ (le_max_right _ _) le_rfl)
  cases held with
  | immutable decimals => exact told
  | mutable entry => exact version _ rfl
  | tombstone closed => exact version _ rfl
  | missing =>
    intro other low high state isLive
    by_cases within : other ≤ known
    · exact told other low within state isLive
    · cases isRow : table.lookup key with
      | none => exact covers.absent key isRow other low (by omega) state isLive
      | some row =>
        obtain ⟨_, lasts⟩ := covers.rows key row isRow
        have := old row isRow
        have here := lasts known (by omega) (by omega)
        have there := lasts other (by omega) (by omega)
        exact told known first le_rfl state (here.trans (there.symm.trans isLive))

end ConfirmedChain

end Cloudbreak.Model.MintCache
