import Cloudbreak.ToMathlib.HashMap
import Cloudbreak.Model.NonCirculating.Tracker

/-! # The hot-accounts cache

A bounded map from recently touched accounts to their last balance. A hit folds the balance change in
memory, a miss is resolved by a database read, and a stake-owned write leaves the cache because the
stake map owns that balance. An operation whose source can panic returns `none` there.
-/

namespace Cloudbreak.Model.Supply

open Cloudbreak.ToMathlib
open NonCirculating (stakeProgramId)

/-- One cached account; a zero-lamport entry is a tombstone. -/
structure Entry where
  lamports : ℕ
  slot : ℕ
  pinned : Bool
deriving DecidableEq, Repr

/-- A hit carries the balance change already folded; a miss needs a database read. -/
inductive Probe where
  | hit (delta : ℤ)
  | miss
deriving DecidableEq, Repr

/-- The row a miss read returned for one account. -/
structure PrevRow where
  lamports : ℕ
  slot : ℕ
deriving DecidableEq, Repr

structure HotAccounts where
  map : HashMap Pubkey Entry
  cap : ℕ
  failPinCap : ℕ
  pinnedCount : ℕ
  lastSweepSlot : ℕ

/-- The sweep runs at least this often even when the cap is not exceeded. -/
def sweepSlotFloor : ℕ := 3000

namespace HotAccounts

def withCapacity (cap failPinCap : ℕ) : HotAccounts := ⟨∅, cap, failPinCap, 0, 0⟩

/-- The subtraction wraps when the pinned count exceeds the entries. -/
def hotLen (cache : HotAccounts) : ℕ :=
  (cache.map.entries.length + (2 ^ 64 - cache.pinnedCount)) % 2 ^ 64

def remove (cache : HotAccounts) (pubkey : Pubkey) : HotAccounts :=
  { cache with
    map := cache.map.erase pubkey
    pinnedCount :=
      if (cache.map.lookup pubkey).any Entry.pinned then cache.pinnedCount - 1 else cache.pinnedCount }

/-- Writes back a touched account, never onto a newer slot. -/
def writeBack (cache : HotAccounts) (pubkey : Pubkey) (lamports slot : ℕ) (owner : Pubkey) :
    HotAccounts :=
  if owner = stakeProgramId then cache.remove pubkey
  else
    match cache.map.lookup pubkey with
    | some entry =>
      if slot ≥ entry.slot then
        { cache with map := cache.map.insert pubkey { entry with lamports, slot } }
      else cache
    | none => { cache with map := cache.map.insert pubkey ⟨lamports, slot, false⟩ }

/-- `zeroPrev` forces a full count for an account that closed inside the bootstrap window. -/
def probe (cache : HotAccounts) (pubkey : Pubkey) (lamports slot : ℕ) (owner : Pubkey)
    (zeroPrev : Bool) : HotAccounts × Probe :=
  if zeroPrev then (cache.writeBack pubkey lamports slot owner, .hit lamports)
  else
    match cache.map.lookup pubkey with
    | some entry =>
      if entry.slot < slot then
        (cache.writeBack pubkey lamports slot owner, .hit (lamports - entry.lamports))
      else (cache, .hit 0)
    | none => (cache, .miss)

/-- The entry rule after a miss read: the newer of the block write and the row is cached. -/
def applyMiss (cache : HotAccounts) (pubkey : Pubkey) (lamports slot : ℕ) (owner : Pubkey) :
    Option PrevRow → HotAccounts × ℤ
  | none => (cache.writeBack pubkey lamports slot owner, lamports)
  | some prev =>
    if prev.slot < slot then
      (cache.writeBack pubkey lamports slot owner, lamports - prev.lamports)
    else (cache.writeBack pubkey prev.lamports prev.slot owner, 0)

def sweepDue (cache : HotAccounts) (slot : ℕ) : Bool :=
  decide (cache.hotLen > cache.cap + cache.cap / 10) ||
    decide (slot - cache.lastSweepSlot ≥ sweepSlotFloor)

/-- The slots of the unpinned entries in ascending order. -/
def unpinnedSlots (cache : HotAccounts) : List ℕ :=
  ((cache.map.values.filter fun entry => !entry.pinned).map Entry.slot).insertionSort (· ≤ ·)

/-- The cutoff that leaves `target` newest unpinned entries; selecting outside the slots panics. -/
def sweepCutoff (cache : HotAccounts) (target : ℕ) : Option ℕ :=
  if cache.unpinnedSlots.length < target then none
  else cache.unpinnedSlots[cache.unpinnedSlots.length - target]?

/-- Evicts unpinned entries toward 90% of the cap, the oldest slots first. -/
def sweep (cache : HotAccounts) (slot : ℕ) : Option (HotAccounts × ℕ) :=
  let cache := { cache with lastSweepSlot := slot }
  let target := cache.cap - cache.cap / 10
  if cache.hotLen ≤ target then some (cache, 0)
  else
    (cache.sweepCutoff target).map fun cutoff =>
      let map := cache.map.retain fun _ entry => entry.pinned || decide (entry.slot ≥ cutoff)
      ({ cache with map }, cache.map.entries.length - map.entries.length)

/-- Pins the touched accounts of a failed block; `none` past the failure-pin cap. -/
def pinFailed (cache : HotAccounts) (pubkeys : List Pubkey) : Option HotAccounts :=
  let newly := (pubkeys.filter fun pubkey =>
    (cache.map.lookup pubkey).any fun entry => !entry.pinned).length
  if cache.pinnedCount + newly > cache.failPinCap then none
  else some { cache with
    pinnedCount := cache.pinnedCount + newly
    map := pubkeys.foldl
      (fun map pubkey =>
        match map.lookup pubkey with
        | some entry => map.insert pubkey { entry with pinned := true }
        | none => map)
      cache.map }

end HotAccounts

end Cloudbreak.Model.Supply
