import Cloudbreak.ToMathlib.MaxMerge
import Cloudbreak.Model.Account

/-! # The cleanup queue

Finalized slots queue keys with exclusive cutoffs, one bucket a slot. A drain takes the oldest slots as
one window, runs it, and then releases it or puts it back under its lowest slot.
-/

namespace Cloudbreak.Model.Cleanup

open Cloudbreak.ToMathlib

/-- A cleanup target. The owner is known when the owner map knew the account. -/
structure CleanupKey where
  owner : Option Pubkey
  pubkey : Pubkey
deriving DecidableEq, Repr

/-- The keys of one drain, split by the SQL form they take. -/
structure Taken where
  routed : List (CleanupKey × ℕ)
  unrouted : List (CleanupKey × ℕ)
  oldestStamp : ℕ
  oldestSlot : ℕ

namespace Taken

/-- Every key of the window, the routed ones first. -/
def items (taken : Taken) : List (CleanupKey × ℕ) := taken.routed ++ taken.unrouted

def isEmpty (taken : Taken) : Bool := taken.routed.isEmpty && taken.unrouted.isEmpty

end Taken

/-- The keys of one finalized slot, merged by the greatest cutoff. -/
structure Bucket where
  keys : HashMap CleanupKey ℕ
  stamp : ℕ

structure Pending where
  slots : HashMap ℕ Bucket
  inFlightStamp : Option ℕ
  highWater : ℕ
  enqueuedSinceDrain : ℕ
  lastDrainSlot : Option ℕ
  intervalSlots : ℕ

namespace Pending

def new (intervalSlots : ℕ) : Pending := ⟨∅, none, 0, 0, none, intervalSlots⟩

/-- Merges keys into the bucket of a slot, which starts empty. -/
def mergeInto (pending : Pending) (slot stamp : ℕ) (items : List (CleanupKey × ℕ)) : Pending :=
  let bucket := (pending.slots.lookup slot).getD ⟨∅, stamp⟩
  { pending with
    slots := pending.slots.insert slot
      { keys := items.foldl HashMap.mergeMax bucket.keys, stamp := min bucket.stamp stamp } }

def enqueue (pending : Pending) (slot : ℕ) (items : List (CleanupKey × ℕ)) : Pending :=
  let pending := { pending with
    highWater := max pending.highWater slot
    enqueuedSinceDrain := pending.enqueuedSinceDrain + 1 }
  if items.isEmpty then pending else pending.mergeInto slot pending.highWater items

/-- The slots of the next window. -/
def oldestSlots (pending : Pending) : List ℕ :=
  (pending.slots.keys.insertionSort (· ≤ ·)).take pending.intervalSlots

/-- What the loop over the window's slots has merged so far. -/
structure Merging where
  slots : HashMap ℕ Bucket
  merged : HashMap CleanupKey ℕ
  stamp : Option ℕ
  oldestSlot : Option ℕ

def Merging.takeSlot (merging : Merging) (slot : ℕ) : Merging :=
  match merging.slots.lookup slot with
  | none => merging
  | some bucket =>
    { slots := merging.slots.erase slot
      merged := bucket.keys.toList.foldl HashMap.mergeMax merging.merged
      stamp := some (merging.stamp.elim bucket.stamp (min · bucket.stamp))
      oldestSlot := some (merging.oldestSlot.getD slot) }

def merging (pending : Pending) : Merging :=
  pending.oldestSlots.foldl Merging.takeSlot ⟨pending.slots, ∅, none, none⟩

/-- The order the routed keys are issued in. -/
def routedLe (a b : CleanupKey × ℕ) : Prop :=
  a.1.owner.getD 0 < b.1.owner.getD 0 ∨ a.1.owner.getD 0 = b.1.owner.getD 0 ∧ a.1.pubkey ≤ b.1.pubkey

instance : DecidableRel routedLe := fun _ _ => inferInstanceAs (Decidable (_ ∨ _ ∧ _))

/-- Takes the oldest slots, merged and split by SQL form. -/
def takeWindow (pending : Pending) : Taken × Pending :=
  let after := pending.merging
  let items := after.merged.toList
  let taken : Taken :=
    { routed := (items.filter fun item => item.1.owner.isSome).insertionSort routedLe
      unrouted := items.filter fun item => !item.1.owner.isSome
      oldestStamp := after.stamp.getD pending.highWater
      oldestSlot := after.oldestSlot.getD pending.highWater }
  (taken, { pending with
    slots := after.slots
    inFlightStamp := if taken.isEmpty then none else some taken.oldestStamp })

/-- Releases a drain that succeeded. -/
def finish (pending : Pending) : Pending := { pending with inFlightStamp := none }

/-- Puts a failed window back under its lowest slot. -/
def reinsert (pending : Pending) (taken : Taken) : Pending :=
  let pending := if taken.isEmpty then pending
    else pending.mergeInto taken.oldestSlot taken.oldestStamp taken.items
  pending.finish

def noteDrain (pending : Pending) : Pending :=
  { pending with enqueuedSinceDrain := 0, lastDrainSlot := some pending.highWater }

/-- Finalized slots since the oldest key still waiting, a drain in flight included. -/
def lagSlots (pending : Pending) : ℕ :=
  let queued := (pending.slots.values.map Bucket.stamp).min?
  let oldest := match queued, pending.inFlightStamp with
    | some a, some b => some (min a b)
    | some a, none => some a
    | none, some b => some b
    | none, none => none
  oldest.elim 0 (pending.highWater - ·)

def isQuiescent (pending : Pending) : Bool :=
  pending.slots.entries.isEmpty && pending.inFlightStamp.isNone

end Pending

end Cloudbreak.Model.Cleanup
