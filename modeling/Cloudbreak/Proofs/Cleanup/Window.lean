import Cloudbreak.ToMathlib.SortedTake
import Cloudbreak.Model.Cleanup.Drain

/-! # What a window takes

The loop that takes a window is read back as three facts: which slots it leaves, the greatest cutoff it
carries for each key, and a stamp no younger than any bucket it took.
-/

namespace Cloudbreak.Model.Cleanup

open Cloudbreak.ToMathlib

namespace Pending

variable {pending : Pending} {slot other stamp : ℕ} {items : List (CleanupKey × ℕ)} {key : CleanupKey}
  {cutoff : ℕ}

/-- A key waits with at least a cutoff, in a bucket stamped no later than a frontier. -/
def Waits (pending : Pending) (key : CleanupKey) (cutoff frontier : ℕ) : Prop :=
  ∃ slot bucket held, pending.slots.lookup slot = some bucket ∧ bucket.keys.lookup key = some held ∧
    cutoff ≤ held ∧ bucket.stamp ≤ frontier

theorem lookup_mergeInto (pending : Pending) (slot stamp : ℕ) (items : List (CleanupKey × ℕ)) (other : ℕ) :
    (pending.mergeInto slot stamp items).slots.lookup other =
      if other = slot then
        some { keys := items.foldl HashMap.mergeMax ((pending.slots.lookup slot).getD ⟨∅, stamp⟩).keys
               stamp := min ((pending.slots.lookup slot).getD ⟨∅, stamp⟩).stamp stamp }
      else pending.slots.lookup other :=
  HashMap.lookup_insert _ _ _ _

/-- Merging keeps what waits. -/
theorem Waits.mergeInto {frontier : ℕ} (waits : pending.Waits key cutoff frontier) (slot stamp : ℕ)
    (items : List (CleanupKey × ℕ)) : (pending.mergeInto slot stamp items).Waits key cutoff frontier := by
  obtain ⟨at_, bucket, held, isBucket, isHeld, enough, old⟩ := waits
  by_cases same : at_ = slot
  · subst same
    obtain ⟨most, isMost, bound⟩ := HashMap.exists_lookup_foldl_mergeMax items bucket.keys (Or.inl isHeld)
    refine ⟨at_, _, most, by rw [lookup_mergeInto, if_pos rfl, isBucket, Option.getD_some], isMost,
      enough.trans bound, ?_⟩
    exact (min_le_left _ _).trans old
  · exact ⟨at_, bucket, held, by rw [lookup_mergeInto, if_neg same, isBucket], isHeld, enough, old⟩

/-- A merged key waits under the stamp it came with. -/
theorem waits_mergeInto (pending : Pending) (slot stamp : ℕ) (member : (key, cutoff) ∈ items) :
    (pending.mergeInto slot stamp items).Waits key cutoff stamp := by
  obtain ⟨most, isMost, bound⟩ := HashMap.exists_lookup_foldl_mergeMax items
    ((pending.slots.lookup slot).getD ⟨∅, stamp⟩).keys (Or.inr member)
  exact ⟨slot, _, most, by rw [lookup_mergeInto, if_pos rfl], isMost, bound, min_le_right _ _⟩

/-- A merge holds nothing but what was held and what it was given. -/
theorem Holds.of_mergeInto (holds : (pending.mergeInto slot stamp items).Holds key cutoff) :
    pending.Holds key cutoff ∨ (key, cutoff) ∈ items := by
  obtain ⟨at_, bucket, isBucket, isHeld⟩ := holds
  rw [lookup_mergeInto] at isBucket
  split at isBucket
  · cases isBucket
    rcases (HashMap.lookup_foldl_mergeMax_iff.mp isHeld).1 with before | member
    · left
      cases present : pending.slots.lookup slot with
      | none => simp [present] at before
      | some bucket => exact ⟨slot, bucket, present, by simpa [present] using before⟩
    · exact Or.inr member
  · exact Or.inl ⟨at_, bucket, isBucket, isHeld⟩

namespace Merging

variable {merging : Merging} {window : List ℕ}

theorem slots_takeSlot (merging : Merging) (slot other : ℕ) :
    (merging.takeSlot slot).slots.lookup other = if other = slot then none else merging.slots.lookup other := by
  cases found : merging.slots.lookup slot with
  | none =>
    rw [takeSlot, found]
    by_cases same : other = slot
    · rw [if_pos same, same, found]
    · rw [if_neg same]
  | some bucket =>
    rw [takeSlot, found]
    exact HashMap.lookup_erase _ _ _

private theorem slots_foldl (merging : Merging) (window : List ℕ) (other : ℕ) :
    (window.foldl takeSlot merging).slots.lookup other =
      if other ∈ window then none else merging.slots.lookup other := by
  induction window generalizing merging with
  | nil => simp
  | cons slot rest ih =>
    rw [List.foldl_cons, ih, slots_takeSlot]
    by_cases inRest : other ∈ rest
    · rw [if_pos inRest, if_pos (List.mem_cons_of_mem _ inRest)]
    · rw [if_neg inRest]
      simp [inRest]

/-- The keys of the bucket at a slot. -/
def bucketItems (slots : HashMap ℕ Bucket) (slot : ℕ) : List (CleanupKey × ℕ) :=
  (slots.lookup slot).elim [] fun bucket => bucket.keys.toList

private theorem mem_bucketItems {slots : HashMap ℕ Bucket} :
    (key, cutoff) ∈ bucketItems slots slot ↔
      ∃ bucket, slots.lookup slot = some bucket ∧ bucket.keys.lookup key = some cutoff := by
  cases found : slots.lookup slot with
  | none => simp [bucketItems, found]
  | some bucket => simp [bucketItems, found, HashMap.mem_toList]

private theorem merged_takeSlot (merging : Merging) (slot : ℕ) :
    (merging.takeSlot slot).merged = (bucketItems merging.slots slot).foldl HashMap.mergeMax merging.merged := by
  cases found : merging.slots.lookup slot <;> simp [takeSlot, bucketItems, found]

/-- The loop merges the buckets of the window, read from the slots it started with. -/
theorem merged_foldl (merging : Merging) (distinct : window.Nodup) :
    (window.foldl takeSlot merging).merged =
      (window.flatMap (bucketItems merging.slots)).foldl HashMap.mergeMax merging.merged := by
  induction window generalizing merging with
  | nil => rfl
  | cons slot rest ih =>
    obtain ⟨fresh, distinct⟩ := List.nodup_cons.mp distinct
    have untouched : rest.flatMap (bucketItems (merging.takeSlot slot).slots) =
        rest.flatMap (bucketItems merging.slots) := by
      refine List.flatMap_congr fun other member => ?_
      have differ : other ≠ slot := fun same => fresh (same ▸ member)
      rw [bucketItems, bucketItems, slots_takeSlot, if_neg differ]
    rw [List.foldl_cons, ih _ distinct, untouched, merged_takeSlot, List.flatMap_cons, List.foldl_append]

private theorem stamp_takeSlot_le (merging : Merging) (slot : ℕ) {held : ℕ} (isHeld : merging.stamp = some held) :
    ∃ lower, (merging.takeSlot slot).stamp = some lower ∧ lower ≤ held := by
  cases found : merging.slots.lookup slot with
  | none => exact ⟨held, by rw [takeSlot, found]; exact isHeld, le_rfl⟩
  | some bucket => exact ⟨min held bucket.stamp, by simp [takeSlot, found, isHeld], min_le_left _ _⟩

private theorem stamp_foldl_le (merging : Merging) (window : List ℕ) {held : ℕ} (isHeld : merging.stamp = some held) :
    ∃ lower, (window.foldl takeSlot merging).stamp = some lower ∧ lower ≤ held := by
  induction window generalizing merging held with
  | nil => exact ⟨held, isHeld, le_rfl⟩
  | cons slot rest ih =>
    obtain ⟨next, isNext, below⟩ := stamp_takeSlot_le merging slot isHeld
    obtain ⟨lower, isLower, under⟩ := ih _ isNext
    exact ⟨lower, isLower, under.trans below⟩

/-- The window's stamp is no younger than that of any bucket in it. -/
theorem stamp_foldl (merging : Merging) (distinct : window.Nodup) {bucket : Bucket} (member : slot ∈ window)
    (isBucket : merging.slots.lookup slot = some bucket) :
    ∃ lower, (window.foldl takeSlot merging).stamp = some lower ∧ lower ≤ bucket.stamp := by
  induction window generalizing merging with
  | nil => simp at member
  | cons first rest ih =>
    obtain ⟨fresh, distinct⟩ := List.nodup_cons.mp distinct
    rw [List.foldl_cons]
    rcases List.mem_cons.mp member with rfl | member
    · have stamped : ∃ lower, (merging.takeSlot slot).stamp = some lower ∧ lower ≤ bucket.stamp := by
        cases isHeld : merging.stamp with
        | none => exact ⟨bucket.stamp, by simp [takeSlot, isBucket, isHeld], le_rfl⟩
        | some held => exact ⟨min held bucket.stamp, by simp [takeSlot, isBucket, isHeld], min_le_right _ _⟩
      obtain ⟨next, isNext, below⟩ := stamped
      obtain ⟨lower, isLower, under⟩ := stamp_foldl_le _ rest isNext
      exact ⟨lower, isLower, under.trans below⟩
    · have differ : slot ≠ first := fun same => fresh (same ▸ member)
      exact ih _ distinct member (by rw [slots_takeSlot, if_neg differ, isBucket])

end Merging

theorem nodup_oldestSlots (pending : Pending) : pending.oldestSlots.Nodup :=
  List.Nodup.sublist (List.take_sublist _ _)
    ((List.perm_insertionSort _ _).nodup_iff.mpr pending.slots.keys_nodup)

theorem mem_oldestSlots : slot ∈ pending.oldestSlots ↔ pending.InWindow slot :=
  mem_take_insertionSort_iff pending.slots.keys_nodup

theorem lookup_takeWindow (pending : Pending) (slot : ℕ) [Decidable (pending.InWindow slot)] :
    pending.takeWindow.2.slots.lookup slot =
      if pending.InWindow slot then none else pending.slots.lookup slot := by
  have after : pending.takeWindow.2.slots.lookup slot =
      if slot ∈ pending.oldestSlots then none else pending.slots.lookup slot := Merging.slots_foldl _ _ slot
  simp only [after, mem_oldestSlots]

private theorem mem_items_takeWindow {item : CleanupKey × ℕ} :
    item ∈ pending.takeWindow.1.items ↔ item ∈ pending.merging.merged.toList := by
  simp only [takeWindow, Taken.items, List.mem_append, List.mem_insertionSort, List.mem_filter]
  cases item.1.owner.isSome <;> simp

/-- The window carries, for each key of its slots, the greatest cutoff queued there. -/
theorem mem_takeWindow_iff :
    (key, cutoff) ∈ pending.takeWindow.1.items ↔
      IsGreatest {held | ∃ slot, pending.InWindow slot ∧ ∃ bucket, pending.slots.lookup slot = some bucket ∧
        bucket.keys.lookup key = some held} cutoff := by
  rw [mem_items_takeWindow, HashMap.mem_toList, merging, Merging.merged_foldl _ pending.nodup_oldestSlots,
    HashMap.lookup_foldl_mergeMax_iff]
  have same : ∀ held, ((∅ : HashMap CleanupKey ℕ).lookup key = some held ∨
      (key, held) ∈ pending.oldestSlots.flatMap (Merging.bucketItems pending.slots)) ↔
      ∃ slot, pending.InWindow slot ∧ ∃ bucket, pending.slots.lookup slot = some bucket ∧
        bucket.keys.lookup key = some held := by
    intro held
    simp only [HashMap.lookup_empty, reduceCtorEq, false_or, List.mem_flatMap, mem_oldestSlots,
      Merging.mem_bucketItems]
  simp only [same]

/-- Each key comes once. -/
theorem nodup_takeWindow (pending : Pending) : (pending.takeWindow.1.items.map Prod.fst).Nodup := by
  have permuted : pending.takeWindow.1.items.Perm pending.merging.merged.toList :=
    ((List.perm_insertionSort _ _).append_right _).trans
      (List.filter_append_perm (fun item => item.1.owner.isSome) pending.merging.merged.toList)
  exact (permuted.map Prod.fst).nodup_iff.mpr (HashMap.nodup_toList _)

/-- What waits is left waiting, or is in the window under a stamp as old. -/
theorem Waits.takeWindow {frontier : ℕ} (waits : pending.Waits key cutoff frontier) :
    pending.takeWindow.2.Waits key cutoff frontier ∨
      ∃ held, (key, held) ∈ pending.takeWindow.1.items ∧ cutoff ≤ held ∧
        pending.takeWindow.1.oldestStamp ≤ frontier := by
  classical
  obtain ⟨slot, bucket, held, isBucket, isHeld, enough, old⟩ := waits
  by_cases inWindow : pending.InWindow slot
  · right
    have member := mem_oldestSlots.mpr inWindow
    obtain ⟨most, isMost, bound⟩ := HashMap.exists_lookup_foldl_mergeMax _ (∅ : HashMap CleanupKey ℕ)
      (Or.inr (List.mem_flatMap.mpr ⟨slot, member, Merging.mem_bucketItems.mpr ⟨bucket, isBucket, isHeld⟩⟩))
    obtain ⟨lower, isLower, under⟩ :=
      Merging.stamp_foldl ⟨pending.slots, ∅, none, none⟩ pending.nodup_oldestSlots member isBucket
    refine ⟨most, ?_, enough.trans bound, ?_⟩
    · rw [mem_items_takeWindow, HashMap.mem_toList, merging, Merging.merged_foldl _ pending.nodup_oldestSlots]
      exact isMost
    · have stamped : pending.takeWindow.1.oldestStamp = lower := by
        have isStamp : pending.merging.stamp = some lower := isLower
        simp only [Pending.takeWindow, isStamp, Option.getD_some]
      omega
  · exact Or.inl ⟨slot, bucket, held, by rw [lookup_takeWindow, if_neg inWindow, isBucket], isHeld, enough, old⟩

theorem Holds.of_takeWindow (holds : pending.takeWindow.2.Holds key cutoff) : pending.Holds key cutoff := by
  classical
  obtain ⟨slot, bucket, isBucket, isHeld⟩ := holds
  rw [lookup_takeWindow] at isBucket
  split at isBucket
  · contradiction
  · exact ⟨slot, bucket, isBucket, isHeld⟩

theorem holds_of_mem_takeWindow (member : (key, cutoff) ∈ pending.takeWindow.1.items) :
    pending.Holds key cutoff := by
  obtain ⟨slot, _, bucket, isBucket, isHeld⟩ := (mem_takeWindow_iff.mp member).1
  exact ⟨slot, bucket, isBucket, isHeld⟩

end Pending

end Cloudbreak.Model.Cleanup
