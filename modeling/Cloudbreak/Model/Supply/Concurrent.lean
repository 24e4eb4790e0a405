import Cloudbreak.Model.Supply.Tracker
import Cloudbreak.ToMathlib.Run

/-! # The supply tracker under concurrent callers

A block is probed, waits for its miss read, leaves the block lock and is committed, and each of these takes
the state mutex on its own. In between the gap detector, the gap filler, the bootstrap and the sweep take it.
A step here is one hold of the mutex, or an await that ends.
-/

namespace Cloudbreak.Model.Supply

open Cloudbreak.ToMathlib
open NonCirculating (StakeBlock)

/-- Where a block stands. -/
inductive BlockPhase where
  | waiting (pending : List Pending) (stake : StakeBlock)
  | reading (delta : ℤ) (touched : List Pubkey) (misses : List Pending) (retried : Bool)
  | resolved (outcome : BlockOutcome)
  | applied (outcome : BlockOutcome) (blockWritesOk : Bool)
  | committing (delta : ℤ)
  | capExceeded
  | done

/-- What ends a phase. -/
inductive BlockStep where
  | probeBlock
  | readFails
  | readReturns (prev : Pubkey → Option PrevRow)
  | blockWrites (ok : Bool)
  | finishBlock
  | commitBlock
  | markStale

/-- One phase of a block on the shared state, with the row it publishes. -/
def BlockPhase.step (state : SupplyState) (slot : ℕ) (isRepaired : Bool) :
    BlockPhase → BlockStep → Option (SupplyState × BlockPhase × Option SupplyCommit)
  | .waiting pending stake, .probeBlock =>
    match state.probeBlock slot isRepaired pending stake with
    | (state, .delta delta touched, misses) =>
      if misses = [] then some (state, .resolved (.delta delta touched), none)
      else some (state, .reading delta touched misses false, none)
    | (state, outcome, _) => some (state, .resolved outcome, none)
  | .reading delta touched misses false, .readFails => some (state, .reading delta touched misses true, none)
  -- The second failure.
  | .reading _ _ _ true, .readFails => some (state.markStale.1, .resolved .readFailed, none)
  | .reading delta touched misses _, .readReturns prev =>
    let probed := misses.foldl (SupplyState.resolveMiss slot prev) ⟨state, delta, touched, []⟩
    some (probed.state, .resolved (.delta probed.delta probed.touched), none)
  | .resolved outcome, .blockWrites ok => some (state, .applied outcome ok, none)
  | .applied .idle _, .finishBlock => some (state, .done, none)
  | .applied .readFailed _, .finishBlock => some (state, .done, none)
  | .applied .bootstrapping ok, .finishBlock =>
    some (if ok then state else state.markBootstrapFailed.1, .done, none)
  | .applied (.delta delta touched) ok, .finishBlock =>
    if ok then some (state, .committing delta, none)
    else
      match state.cache.pinFailed touched with
      | none => some (state, .capExceeded, none)
      | some cache => some ({ state with cache }, .committing delta, none)
  | .committing delta, .commitBlock =>
    let (state, commit) := state.commitBlock slot delta
    some (state, .done, commit)
  | .capExceeded, .markStale => some (state.markStale.1, .done, none)
  | _, _ => none

structure BlockTask where
  slot : ℕ
  isRepaired : Bool
  phase : BlockPhase

/-- The tracker, the holder of the block lock, the blocks under way and the rows published so far. -/
structure SupplySystem where
  state : SupplyState
  blockWrites : Option ℕ
  tasks : HashMap ℕ BlockTask
  published : List SupplyCommit

inductive SupplyEvent where
  | setStartupTotal (slot capitalization : ℕ)
  | markBootstrapFailed
  | finishBootstrap (startupBalances : HashMap Pubkey ℕ)
  | markGap
  | finishGap
  | markStale
  | sweepIfDue (slot : ℕ)
  | applyBlock (task slot : ℕ) (isRepaired : Bool) (pending : List Pending) (stake : StakeBlock)
  | blockStep (task : ℕ) (step : BlockStep)

namespace SupplySystem

def new (cap failPinCap : ℕ) : SupplySystem := ⟨.new cap failPinCap, none, ∅, []⟩

/-- The block lock is free for a probe, and is given back when the block's writes are done. -/
def lockAfter (holder : Option ℕ) (task : ℕ) : BlockStep → Option (Option ℕ)
  | .probeBlock => if holder = none then some (some task) else none
  | .blockWrites _ => some none
  | _ => some holder

/-- One event. `none` where it cannot happen. -/
def step (system : SupplySystem) : SupplyEvent → Option SupplySystem
  | .setStartupTotal slot capitalization =>
    some { system with state := system.state.setStartupTotal slot capitalization }
  | .markBootstrapFailed => some { system with state := system.state.markBootstrapFailed.1 }
  | .finishBootstrap startupBalances =>
    match system.state.finishBootstrap startupBalances with
    | none => some system
    | some (state, commit) => some { system with state, published := system.published ++ [commit] }
  | .markGap => some { system with state := system.state.markGap.1 }
  | .finishGap => some { system with state := system.state.finishGap }
  | .markStale => some { system with state := system.state.markStale.1 }
  | .sweepIfDue slot => (system.state.sweepIfDue slot).map fun state => { system with state }
  | .applyBlock task slot isRepaired pending stake =>
    if (system.tasks.lookup task).isSome then none
    else some { system with tasks := system.tasks.insert task ⟨slot, isRepaired, .waiting pending stake⟩ }
  | .blockStep task step => do
    let block ← system.tasks.lookup task
    let blockWrites ← lockAfter system.blockWrites task step
    let (state, phase, commit) ← block.phase.step system.state block.slot block.isRepaired step
    return { state, blockWrites, tasks := system.tasks.insert task { block with phase },
             published := system.published ++ commit.toList }

end SupplySystem

end Cloudbreak.Model.Supply
