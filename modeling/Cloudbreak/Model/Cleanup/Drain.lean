import Cloudbreak.Model.Cleanup.Pending

/-! # The drainer over the cleanup queue

One task drains, one window at a time, while finalized slots keep queueing keys. The history records
what was queued, in order, and what ran, with how many entries had been queued when its window was taken.
-/

namespace Cloudbreak.Model.Cleanup

/-- A key as it was queued, with the high-water slot at that moment. -/
structure Entry where
  key : CleanupKey
  cutoff : ℕ
  highWater : ℕ
deriving DecidableEq, Repr

/-- A key a drain deleted up to a cutoff; its window was taken after the given number of entries. -/
structure Execution where
  key : CleanupKey
  cutoff : ℕ
  takenAfter : ℕ
deriving DecidableEq, Repr

structure Drainer where
  pending : Pending
  window : Option Taken
  takenAfter : ℕ
  enqueued : List Entry
  executed : List Execution

inductive Event where
  | enqueue (slot : ℕ) (items : List (CleanupKey × ℕ))
  | take
  | succeed
  | fail
deriving DecidableEq

namespace Drainer

def start (intervalSlots : ℕ) : Drainer := ⟨.new intervalSlots, none, 0, [], []⟩

def enqueue (drainer : Drainer) (slot : ℕ) (items : List (CleanupKey × ℕ)) : Drainer :=
  let pending := drainer.pending.enqueue slot items
  { drainer with
    pending
    enqueued := drainer.enqueued ++ items.map fun item => ⟨item.1, item.2, pending.highWater⟩ }

def take (drainer : Drainer) : Drainer :=
  let (taken, pending) := drainer.pending.noteDrain.takeWindow
  { drainer with pending, window := some taken, takenAfter := drainer.enqueued.length }

def succeed (drainer : Drainer) (taken : Taken) : Drainer :=
  { drainer with
    pending := drainer.pending.finish
    window := none
    executed := drainer.executed ++ taken.items.map fun item => ⟨item.1, item.2, drainer.takenAfter⟩ }

def fail (drainer : Drainer) (taken : Taken) : Drainer :=
  { drainer with pending := drainer.pending.reinsert taken, window := none }

/-- A window is taken once the one before it has ended. -/
def step (drainer : Drainer) : Event → Option Drainer
  | .enqueue slot items => some (drainer.enqueue slot items)
  | .take => if drainer.window.isNone then some drainer.take else none
  | .succeed => drainer.window.map drainer.succeed
  | .fail => drainer.window.map drainer.fail

/-- A delete for the entry ran in a window taken after it was queued. -/
def Executed (drainer : Drainer) (position : ℕ) (entry : Entry) : Prop :=
  ∃ execution ∈ drainer.executed, execution.key = entry.key ∧ entry.cutoff ≤ execution.cutoff ∧
    position < execution.takenAfter

def InFlight (drainer : Drainer) (entry : Entry) : Prop :=
  ∃ taken ∈ drainer.window, ∃ cutoff, (entry.key, cutoff) ∈ taken.items ∧ entry.cutoff ≤ cutoff

end Drainer

namespace Pending

/-- A key waits with a cutoff in the bucket of some slot. -/
def Holds (pending : Pending) (key : CleanupKey) (cutoff : ℕ) : Prop :=
  ∃ slot bucket, pending.slots.lookup slot = some bucket ∧ bucket.keys.lookup key = some cutoff

/-- A queued slot with fewer than the interval's number of queued slots below it. -/
def InWindow (pending : Pending) (slot : ℕ) : Prop :=
  slot ∈ pending.slots.keys ∧
    (pending.slots.keys.filter fun other => decide (other < slot)).length < pending.intervalSlots

end Pending

end Cloudbreak.Model.Cleanup
