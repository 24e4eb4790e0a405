import Cloudbreak.ToMathlib.Latest

/-! # The table of recent blockhashes

The indexer stores the blockhash of every block and prunes the rows that are too far behind it. The simulation of a
transaction looks for a blockhash among the last blocks up to its slot.
-/

namespace Cloudbreak.Model.Blockhashes

open Cloudbreak.ToMathlib

structure RecentBlockhash where
  slot : ℕ
  blockhash : String
  blockHeight : Option ℕ
deriving DecidableEq, Repr

def recentBlockhashRetentionSlots : ℕ := 900

def maxProcessingAge : ℕ := 150

/-- Replaces the row of the slot. -/
def insertRow (table : List RecentBlockhash) (row : RecentBlockhash) : List RecentBlockhash :=
  (table.filter fun other => decide (other.slot ≠ row.slot)) ++ [row]

def pruneRows (table : List RecentBlockhash) (pruneBefore : ℕ) : List RecentBlockhash :=
  table.filter fun row => decide (pruneBefore ≤ row.slot)

/-- How far the two statements of one call get before an error or the timeout. -/
inductive InsertOutcome where
  | pruned
  | inserted
  | failed
deriving DecidableEq, Repr

def insertRecentBlockhash (table : List RecentBlockhash) (row : RecentBlockhash) (outcome : InsertOutcome) :
    List RecentBlockhash :=
  if row.blockhash = "" then table
  else
    match outcome with
    | .pruned => pruneRows (insertRow table row) (row.slot - recentBlockhashRetentionSlots)
    | .inserted => insertRow table row
    | .failed => table

def upTo (table : List RecentBlockhash) (slot : ℕ) : List RecentBlockhash :=
  table.filter fun row => decide (row.slot ≤ slot)

def blockhashIsRecent (table : List RecentBlockhash) (slot : ℕ) (blockhash : String) : Bool :=
  (latest RecentBlockhash.slot maxProcessingAge (upTo table slot)).any fun row => decide (row.blockhash = blockhash)

def latestBlockhash (table : List RecentBlockhash) (slot : ℕ) : Option (String × ℕ) :=
  (latest RecentBlockhash.slot 1 (upTo table slot)).head?.map fun row =>
    (row.blockhash, row.blockHeight.getD row.slot)

/-- The table, what it would be without pruning, and the highest slot it was given. -/
structure BlockhashStore where
  table : List RecentBlockhash
  whole : List RecentBlockhash
  newest : ℕ

structure BlockhashEvent where
  row : RecentBlockhash
  outcome : InsertOutcome

namespace BlockhashStore

def new : BlockhashStore := ⟨[], [], 0⟩

def step (store : BlockhashStore) (event : BlockhashEvent) : Option BlockhashStore :=
  some
    { table := insertRecentBlockhash store.table event.row event.outcome
      whole := insertRecentBlockhash store.whole event.row (if event.outcome = .failed then .failed else .inserted)
      newest := max store.newest event.row.slot }

/-- The rows up to a slot that are never pruned. -/
def retained (store : BlockhashStore) (slot : ℕ) : List RecentBlockhash :=
  (upTo store.whole slot).filter fun row =>
    decide (store.newest - recentBlockhashRetentionSlots ≤ row.slot)

end BlockhashStore

end Cloudbreak.Model.Blockhashes
