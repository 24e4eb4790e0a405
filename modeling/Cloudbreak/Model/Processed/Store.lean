import Cloudbreak.ToMathlib.HashMap
import Cloudbreak.Model.Account

/-! # The processed block store

One block is kept per slot. A store carries the fact that every block sits under its own slot, so a parent
found in it lies below its child and every walk over parents ends. Receive times feed a latency metric only
and are left out.
-/

namespace Cloudbreak.Model.Processed

open Cloudbreak.ToMathlib

abbrev Blockhash := String

/-- An account version held in memory. -/
structure LiveAccount where
  lamports : ℕ
  owner : Pubkey
  executable : Bool
  rentEpoch : ℕ
  data : List UInt8
deriving DecidableEq, Repr

/-- An account write in one block; a close shadows every older version. -/
inductive AccountEntry where
  | live (account : LiveAccount)
  | closed
deriving DecidableEq, Repr

structure SlotBlock where
  slot : ℕ
  blockhash : Blockhash
  parentSlot : ℕ
  parentBlockhash : Blockhash
  blockTime : Option ℤ
  accounts : HashMap Pubkey AccountEntry
  heapBytes : ℕ
deriving DecidableEq

/-- The confirmed slot and its blockhash. -/
structure Anchor where
  confirmedSlot : ℕ
  confirmedBlockhash : Blockhash
deriving DecidableEq, Repr

/-- Slots kept above the confirmed slot. -/
def maxSlotsAboveConfirmed : ℕ := 32

/-- Slots kept below the confirmed slot. -/
def retainedSlotsBelowConfirmed : ℕ := 4

structure BlockStore where
  blocks : HashMap ℕ SlotBlock
  conflictUntil : Option ℕ
  anchor : Option Anchor
  keyed : ∀ slot block, blocks.lookup slot = some block → block.slot = slot

/-- The blocks a request reads, newest first. -/
structure ProcessedBlocks where
  slot : ℕ
  blockTime : ℤ
  anchorSlot : ℕ
  storedBlocks : ℕ
  storedBytes : ℕ
  blocks : List SlotBlock

inductive ProcessedAccount where
  | live (account : LiveAccount)
  | closed
  | unknown
deriving DecidableEq, Repr

namespace BlockStore

def new : BlockStore := ⟨∅, none, none, fun slot block => by simp⟩

def anchorSlot (store : BlockStore) : Option ℕ := store.anchor.map Anchor.confirmedSlot

def find (store : BlockStore) (slot : ℕ) (hash : Blockhash) : Option SlotBlock :=
  (store.blocks.lookup slot).filter fun block => decide (block.blockhash = hash)

/-- The stored parent. A block that names no lower slot has none. -/
def parentOf (store : BlockStore) (block : SlotBlock) : Option SlotBlock :=
  if block.parentSlot ≥ block.slot then none else store.find block.parentSlot block.parentBlockhash

theorem find_eq_some {store : BlockStore} {slot : ℕ} {hash : Blockhash} {block : SlotBlock} :
    store.find slot hash = some block ↔ store.blocks.lookup slot = some block ∧ block.blockhash = hash := by
  rw [find, Option.filter_eq_some_iff, decide_eq_true_iff]

theorem parentOf_eq_some {store : BlockStore} {block parent : SlotBlock} :
    store.parentOf block = some parent ↔
      block.parentSlot < block.slot ∧ store.blocks.lookup block.parentSlot = some parent ∧
        parent.blockhash = block.parentBlockhash := by
  rw [parentOf]
  split
  · next high => simp [high]
  · next low => simp [find_eq_some, Nat.lt_of_not_le low]

theorem slot_parentOf {store : BlockStore} {block parent : SlotBlock} (isParent : store.parentOf block = some parent) :
    parent.slot = block.parentSlot :=
  store.keyed _ _ (parentOf_eq_some.mp isParent).2.1

theorem parentOf_lt {store : BlockStore} {block parent : SlotBlock} (isParent : store.parentOf block = some parent) :
    parent.slot < block.slot :=
  (slot_parentOf isParent).trans_lt (parentOf_eq_some.mp isParent).1

/-- A slot at or below the anchor. -/
def confirmed (store : BlockStore) (slot : ℕ) : Bool := store.anchorSlot.any fun a => decide (slot ≤ a)

/-- The slots above a slot, in ascending order. -/
def slotsAbove (store : BlockStore) (slot : ℕ) : List ℕ :=
  (store.blocks.keys.filter fun other => decide (slot < other)).insertionSort (· ≤ ·)

/-- One step of the sweep: a slot is doomed with its stored parent. -/
def doom (store : BlockStore) (doomed : List ℕ) (slot : ℕ) : List ℕ :=
  if (store.blocks.lookup slot).any fun child =>
      decide (child.parentSlot ∈ doomed) && (store.parentOf child).isSome
  then doomed ++ [slot] else doomed

/-- Deletes the block at a slot and its descendants, and serves nothing until the anchor passes the slot. -/
def conflict (store : BlockStore) (slot : ℕ) : BlockStore :=
  let doomed := (store.slotsAbove slot).foldl store.doom [slot]
  { store with
    blocks := store.blocks.retain fun other _ => !decide (other ∈ doomed)
    conflictUntil := some (store.conflictUntil.elim slot (max · slot))
    keyed := fun other block found => by
      rw [HashMap.lookup_retain, Option.filter_eq_some_iff] at found
      exact store.keyed other block found.1 }

def insert (store : BlockStore) (block : SlotBlock) : BlockStore :=
  { store with
    blocks := store.blocks.insert block.slot block
    keyed := fun other stored found => by
      rw [HashMap.lookup_insert] at found
      split at found
      · next same =>
        cases found
        exact same.symm
      · exact store.keyed other stored found }

def onBlock (store : BlockStore) (block : SlotBlock) : BlockStore :=
  match store.blocks.lookup block.slot with
  | some stored =>
    if stored.blockhash ≠ block.blockhash ∧ store.confirmed block.slot = false then store.conflict block.slot
    else store
  | none =>
    match store.blocks.lookup block.parentSlot with
    | some parent =>
      if parent.blockhash ≠ block.parentBlockhash then
        if store.confirmed block.parentSlot = false then store.conflict block.parentSlot else store
      else store.insert block
    | none => store.insert block

def setAnchor (store : BlockStore) (anchor : Anchor) : BlockStore :=
  { store with
    conflictUntil := if store.conflictUntil.any fun until_ => decide (anchor.confirmedSlot > until_) then none
      else store.conflictUntil
    anchor := some anchor }

def retain (store : BlockStore) (keep : ℕ → Bool) : BlockStore :=
  { store with
    blocks := store.blocks.retain fun slot _ => keep slot
    keyed := fun other block found => by
      rw [HashMap.lookup_retain, Option.filter_eq_some_iff] at found
      exact store.keyed other block found.1 }

/-- Drops the slots below the retained window, then the lowest ones over the cap above the anchor. -/
def prune (store : BlockStore) : BlockStore :=
  let store := store.retain fun slot =>
    store.anchorSlot.all fun a => decide (a - retainedSlotsBelowConfirmed ≤ slot)
  let above := (store.blocks.keys.filter fun slot => decide (store.anchorSlot.elim 0 (· + 1) ≤ slot)).insertionSort
    (· ≤ ·)
  let evicted := above.take (above.length - maxSlotsAboveConfirmed)
  store.retain fun slot => !decide (slot ∈ evicted)

/-- The blocks above the anchor from a block down, and the block the walk stops at. -/
def walkAbove (store : BlockStore) (anchor : Anchor) (block : SlotBlock) : Option (List SlotBlock × SlotBlock) :=
  if block.slot > anchor.confirmedSlot then
    if block.parentSlot = anchor.confirmedSlot then
      if block.parentBlockhash ≠ anchor.confirmedBlockhash then none else some ([block], block)
    else match _isParent : store.parentOf block with
      | none => none
      | some parent => (store.walkAbove anchor parent).map fun walked => (block :: walked.1, walked.2)
  else some ([], block)
termination_by block.slot
decreasing_by exact parentOf_lt _isParent

/-- A block and its stored parents. -/
def ancestry (store : BlockStore) (block : SlotBlock) : List SlotBlock :=
  match _isParent : store.parentOf block with
  | none => [block]
  | some parent => block :: store.ancestry parent
termination_by block.slot
decreasing_by exact parentOf_lt _isParent

def highest (store : BlockStore) : Option SlotBlock := store.blocks.keys.max?.bind store.blocks.lookup

/-- The confirmed block, where the walk allows one: by parent link below the lowest block above the anchor, or
the head itself. The outer `none` is the source's early return. -/
def atAnchor (store : BlockStore) (anchor : Anchor) (block : SlotBlock) : Option (Option SlotBlock) :=
  if block.slot > anchor.confirmedSlot then some (store.parentOf block)
  else if block.slot = anchor.confirmedSlot then
    (store.find anchor.confirmedSlot anchor.confirmedBlockhash).map some
  else none

/-- The blocks from the highest stored slot, when its walk reaches the confirmed slot and blockhash. -/
def latestChainedBlocks (store : BlockStore) : Option ProcessedBlocks := do
  let anchor ← store.anchor
  if store.conflictUntil.any fun until_ => decide (anchor.confirmedSlot ≤ until_) then none
  else
    let head ← store.highest
    let blockTime ← head.blockTime
    let walked ← store.walkAbove anchor head
    let below ← store.atAnchor anchor walked.2
    return {
      slot := head.slot
      blockTime
      anchorSlot := anchor.confirmedSlot
      storedBlocks := store.blocks.entries.length
      storedBytes := (store.blocks.values.map SlotBlock.heapBytes).sum
      blocks := walked.1 ++ below.elim [] store.ancestry }

end BlockStore

namespace ProcessedBlocks

/-- The newest write of a key along the blocks. -/
def getAccount (blocks : ProcessedBlocks) (pubkey : Pubkey) : ProcessedAccount :=
  match blocks.blocks.findSome? fun block : SlotBlock => block.accounts.lookup pubkey with
  | some (AccountEntry.live account) => .live account
  | some AccountEntry.closed => .closed
  | none => .unknown

end ProcessedBlocks

/-- What reaches the store. -/
inductive Event where
  | onBlock (block : SlotBlock)
  | setAnchor (anchor : Anchor)
  | prune
deriving DecidableEq

def BlockStore.step (store : BlockStore) : Event → Option BlockStore
  | .onBlock block => some (store.onBlock block)
  | .setAnchor anchor => some (store.setAnchor anchor)
  | .prune => some store.prune

end Cloudbreak.Model.Processed
