import Cloudbreak.Model.LargestAccounts.Tracker
import Cloudbreak.ToMathlib.HashMapSize

/-! # One top keeps its holders or their bound

A top follows a holder map when its entries are the map's, its floor bounds every holder it left out, it holds at
most the reservoir, and the cached minimum is the minimum. Every change of a top is a change of one holder.
-/

namespace Cloudbreak.Model.LargestAccounts

open Cloudbreak.ToMathlib

namespace MintTop

variable {top : MintTop} {pubkey other : Pubkey} {entry : Entry} {item : Pubkey × ℕ}

/-- The order in which a full top evicts. -/
def rank (item : Pubkey × ℕ) : ℕ ×ₗ Pubkey := toLex (item.2, item.1)

theorem rank_injective : Function.Injective rank := by
  rintro ⟨pubkey, amount⟩ ⟨other, otherAmount⟩ same
  obtain ⟨amounts, pubkeys⟩ := Prod.mk.inj (toLex.injective same)
  dsimp only at amounts pubkeys
  rw [amounts, pubkeys]

theorem mem_amounts : item ∈ top.amounts ↔ ∃ entry, top.entries.lookup item.1 = some entry ∧ entry.amount = item.2 := by
  simp only [amounts, List.mem_map, Prod.exists]
  constructor
  · rintro ⟨pubkey, entry, member, rfl⟩
    exact ⟨entry, HashMap.mem_toList.mp member, rfl⟩
  · rintro ⟨entry, present, same⟩
    exact ⟨item.1, entry, HashMap.mem_toList.mpr present, Prod.ext rfl same⟩

/-! ## The minimum -/

theorem minEntry_eq_none : top.minEntry = none ↔ ∀ pubkey, top.entries.lookup pubkey = none := by
  rw [minEntry, List.argmin_eq_none]
  constructor
  · intro empty pubkey
    cases found : top.entries.lookup pubkey with
    | none => rfl
    | some entry =>
      have member : (pubkey, entry.amount) ∈ top.amounts := mem_amounts.mpr ⟨entry, found, rfl⟩
      rw [empty] at member
      contradiction
  · intro absent
    refine List.eq_nil_iff_forall_not_mem.mpr fun item member => ?_
    obtain ⟨entry, present, -⟩ := mem_amounts.mp member
    rw [absent] at present
    contradiction

theorem minEntry_eq_some :
    top.minEntry = some item ↔ item ∈ top.amounts ∧ ∀ other ∈ top.amounts, rank item ≤ rank other := by
  constructor
  · intro found
    exact ⟨List.argmin_mem found, fun other member => List.le_of_mem_argmin member found⟩
  · rintro ⟨member, least⟩
    cases found : top.minEntry with
    | none =>
      rw [minEntry, List.argmin_eq_none] at found
      rw [found] at member
      contradiction
    | some best =>
      have le : rank best ≤ rank item := List.le_of_mem_argmin member found
      have ge : rank item ≤ rank best := least best (List.argmin_mem found)
      rw [rank_injective (le_antisymm le ge)]

/-- The minimum depends on the entries alone. -/
theorem minEntry_congr {same : MintTop} (entries : same.entries = top.entries) : same.minEntry = top.minEntry := by
  rw [minEntry, minEntry, amounts, amounts, entries]

/-- Erasing any other entry keeps the minimum. -/
theorem minEntry_erase {erased : MintTop} (entries : erased.entries = top.entries.erase pubkey)
    (differs : ∀ item, top.minEntry = some item → item.1 ≠ pubkey) : erased.minEntry = top.minEntry := by
  have lookup : ∀ other, erased.entries.lookup other = if other = pubkey then none else top.entries.lookup other := by
    intro other
    rw [entries, HashMap.lookup_erase]
  cases found : top.minEntry with
  | none =>
    refine minEntry_eq_none.mpr fun other => ?_
    rw [lookup, minEntry_eq_none.mp found, ite_self]
  | some item =>
    obtain ⟨member, least⟩ := minEntry_eq_some.mp found
    obtain ⟨entry, present, amount⟩ := mem_amounts.mp member
    refine minEntry_eq_some.mpr ⟨mem_amounts.mpr ⟨entry, ?_, amount⟩, fun other otherMember => ?_⟩
    · rw [lookup, if_neg (differs item found), present]
    · obtain ⟨otherEntry, otherPresent, otherAmount⟩ := mem_amounts.mp otherMember
      rw [lookup] at otherPresent
      split at otherPresent
      · contradiction
      · exact least other (mem_amounts.mpr ⟨otherEntry, otherPresent, otherAmount⟩)

theorem entries_lowerCachedMin (amount : ℕ) : (top.lowerCachedMin pubkey amount).entries = top.entries := by
  unfold lowerCachedMin
  split
  · split <;> rfl
  · rfl

theorem droppedFloor_lowerCachedMin (amount : ℕ) :
    (top.lowerCachedMin pubkey amount).droppedFloor = top.droppedFloor := by
  unfold lowerCachedMin
  split
  · split <;> rfl
  · rfl

/-- Lowering the cached minimum suffices after a change of an entry that is not the minimum. -/
theorem cachedMin_lower {changed : MintTop} (cached : top.cachedMin = top.minEntry)
    (kept : changed.cachedMin = top.cachedMin) (entries : changed.entries = top.entries.insert pubkey entry)
    (differs : ∀ item, top.minEntry = some item → item.1 ≠ pubkey) :
    (changed.lowerCachedMin pubkey entry.amount).cachedMin = (changed.lowerCachedMin pubkey entry.amount).minEntry := by
  rw [minEntry_congr (entries_lowerCachedMin entry.amount)]
  have lookup : ∀ other,
      changed.entries.lookup other = if other = pubkey then some entry else top.entries.lookup other := by
    intro other
    rw [entries, HashMap.lookup_insert]
  have added : (pubkey, entry.amount) ∈ changed.amounts :=
    mem_amounts.mpr ⟨entry, (lookup pubkey).trans (if_pos rfl), rfl⟩
  -- Every other entry was there before.
  have before : ∀ item ∈ changed.amounts, item = (pubkey, entry.amount) ∨ item ∈ top.amounts := by
    intro item member
    obtain ⟨held, present, amount⟩ := mem_amounts.mp member
    rw [lookup] at present
    split at present
    · next same =>
      cases present
      exact Or.inl (Prod.ext same amount.symm)
    · exact Or.inr (mem_amounts.mpr ⟨held, present, amount⟩)
  unfold lowerCachedMin
  rw [kept, cached]
  cases found : top.minEntry with
  | none =>
    refine (minEntry_eq_some.mpr ⟨added, fun item member => ?_⟩).symm
    rcases before item member with rfl | old
    · exact le_rfl
    · obtain ⟨held, present, -⟩ := mem_amounts.mp old
      rw [minEntry_eq_none.mp found] at present
      contradiction
  | some least =>
    obtain ⟨member, bounds⟩ := minEntry_eq_some.mp found
    dsimp only
    split
    · next less =>
      refine (minEntry_eq_some.mpr ⟨added, fun item present => ?_⟩).symm
      rcases before item present with rfl | old
      · exact le_rfl
      · exact (le_of_lt less).trans (bounds item old)
    · next notLess =>
      obtain ⟨held, present, amount⟩ := mem_amounts.mp member
      rw [kept, cached, found]
      refine (minEntry_eq_some.mpr ⟨mem_amounts.mpr ⟨held, ?_, amount⟩, fun item isItem => ?_⟩).symm
      · rw [lookup, if_neg (differs least found), present]
      · rcases before item isItem with rfl | old
        · exact not_lt.mp notLess
        · exact bounds item old

/-! ## The holders of one top -/

/-- The entries are holders with their newest state, and the floor bounds every holder left out. -/
structure Covers (top : MintTop) (holder : Pubkey → Option Entry) : Prop where
  held : ∀ pubkey entry, top.entries.lookup pubkey = some entry → holder pubkey = some entry
  dropped : ∀ pubkey entry, holder pubkey = some entry → top.entries.lookup pubkey = none →
    entry.amount ≤ top.droppedFloor

/-- A top between two updates. -/
structure Follows (top : MintTop) (holder : Pubkey → Option Entry) (k : ℕ) : Prop extends top.Covers holder where
  bounded : top.entries.entries.length ≤ k
  cached : top.cachedMin = top.minEntry

section Covers

variable {holder : Pubkey → Option Entry} {changed : MintTop} {k : ℕ}

/-- Holders that a top left out may be forgotten. -/
theorem Covers.weaken {fewer : Pubkey → Option Entry} (covers : top.Covers holder)
    (forgotten : ∀ pubkey, fewer pubkey = holder pubkey ∨ fewer pubkey = none ∧ top.entries.lookup pubkey = none) :
    top.Covers fewer where
  held pubkey entry present := by
    rcases forgotten pubkey with same | ⟨-, absent⟩
    · exact same.trans (covers.held pubkey entry present)
    · rw [absent] at present
      contradiction
  dropped pubkey entry holds absent := by
    rcases forgotten pubkey with same | ⟨gone, -⟩
    · exact covers.dropped pubkey entry (same.symm.trans holds) absent
    · rw [gone] at holds
      contradiction

/-- A higher floor bounds more holders. -/
theorem Covers.raise (covers : top.Covers holder) (entries : changed.entries = top.entries)
    (floor : top.droppedFloor ≤ changed.droppedFloor) : changed.Covers holder where
  held pubkey entry present := covers.held pubkey entry (entries ▸ present)
  dropped pubkey entry holds absent := (covers.dropped pubkey entry holds (entries ▸ absent)).trans floor

/-- A holder at or below the floor need not be an entry. -/
theorem Covers.leaveOut (covers : top.Covers holder) (absent : top.entries.lookup pubkey = none)
    (below : entry.amount ≤ top.droppedFloor) : top.Covers (Function.update holder pubkey (some entry)) where
  held other otherEntry present := by
    have differs : other ≠ pubkey := fun same => by
      rw [same, absent] at present
      contradiction
    rw [Function.update_of_ne differs]
    exact covers.held other otherEntry present
  dropped other otherEntry holds otherAbsent := by
    by_cases same : other = pubkey
    · rw [same, Function.update_self] at holds
      cases holds
      exact below
    · rw [Function.update_of_ne same] at holds
      exact covers.dropped other otherEntry holds otherAbsent

theorem Covers.insert (covers : top.Covers holder) (entries : changed.entries = top.entries.insert pubkey entry)
    (floor : top.droppedFloor ≤ changed.droppedFloor) :
    changed.Covers (Function.update holder pubkey (some entry)) where
  held other otherEntry present := by
    rw [entries, HashMap.lookup_insert] at present
    split at present
    · next same => rw [same, Function.update_self, present]
    · next differs =>
      rw [Function.update_of_ne differs]
      exact covers.held other otherEntry present
  dropped other otherEntry holds absent := by
    rw [entries, HashMap.lookup_insert] at absent
    split at absent
    · contradiction
    · next differs =>
      rw [Function.update_of_ne differs] at holds
      exact (covers.dropped other otherEntry holds absent).trans floor

theorem Covers.erase (covers : top.Covers holder) (entries : changed.entries = top.entries.erase pubkey)
    (floor : top.droppedFloor ≤ changed.droppedFloor) : changed.Covers (Function.update holder pubkey none) where
  held other otherEntry present := by
    rw [entries, HashMap.lookup_erase] at present
    split at present
    · contradiction
    · next differs =>
      rw [Function.update_of_ne differs]
      exact covers.held other otherEntry present
  dropped other otherEntry holds absent := by
    by_cases same : other = pubkey
    · rw [same, Function.update_self] at holds
      contradiction
    · rw [entries, HashMap.lookup_erase, if_neg same] at absent
      rw [Function.update_of_ne same] at holds
      exact (covers.dropped other otherEntry holds absent).trans floor

/-- An evicted entry stays a holder, at or below the floor. -/
theorem Covers.dropVictim (covers : top.Covers holder) (member : item ∈ top.amounts) :
    (top.dropVictim item).Covers holder := by
  obtain ⟨entry, present, amount⟩ := mem_amounts.mp member
  have erased : (top.dropVictim item).Covers (Function.update holder item.1 none) :=
    covers.erase rfl (le_max_left _ _)
  have absent : (top.dropVictim item).entries.lookup item.1 = none := by
    rw [MintTop.dropVictim, HashMap.lookup_erase, if_pos rfl]
  have below : entry.amount ≤ (top.dropVictim item).droppedFloor := amount ▸ le_max_right _ _
  have restored := erased.leaveOut absent below
  rwa [Function.update_idem, ← covers.held _ _ present, Function.update_eq_self] at restored

end Covers

end MintTop

end Cloudbreak.Model.LargestAccounts
