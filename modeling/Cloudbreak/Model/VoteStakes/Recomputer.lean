import Mathlib

/-! # The recomputer of the epoch stakes

Every minute the stakes of the epoch are recomputed from the indexed accounts, until their total holds steady and the
rewards of the epoch have been distributed. After that they are recomputed on a slow heartbeat, and a total that moves
brings the fast refinement back. Times are in seconds.
-/

namespace Cloudbreak.Model.VoteStakes

def slotsPerEpoch : ℕ := 432000

def pollInterval : ℕ := 60

def heartbeatInterval : ℕ := 600

def stablePollsRequired : ℕ := 3

def maxRecomputesPerEpoch : ℕ := 30

structure EpochStakesRecomputer where
  workingEpoch : Option ℕ
  prevTotal : Option ℕ
  stablePolls : ℕ
  recomputes : ℕ
  seenDistributing : Bool
  converged : Bool
  lastRecompute : Option ℕ

/-- What a turn of the loop reads. `total` is that of a recompute, `none` when it fails, and `rewards` says whether the
distribution is active. The turn waits for `elapsed` beyond the poll interval, and the recompute takes `took`. -/
structure PollReading where
  elapsed : ℕ
  healthy : Bool
  finalizedSlot : Option ℕ
  total : Option ℕ
  took : ℕ
  rewards : Option Bool

/-- A recompute of the working epoch. -/
structure Recompute where
  total : ℕ
  time : ℕ
  rewards : Option Bool

/-- The recomputer with the recomputes of its working epoch, in order. -/
structure Recomputing where
  recomputer : EpochStakesRecomputer
  now : ℕ
  log : List Recompute

namespace EpochStakesRecomputer

def new : EpochStakesRecomputer := ⟨none, none, 0, 0, false, false, none⟩

/-- Converged, and the last recompute is not a heartbeat ago. -/
def rests (recomputer : EpochStakesRecomputer) (now : ℕ) : Bool :=
  recomputer.converged && recomputer.lastRecompute.any fun last => decide (now - last < heartbeatInterval)

def stablePollsAfter (recomputer : EpochStakesRecomputer) (total : ℕ) : ℕ :=
  if recomputer.prevTotal = some total then recomputer.stablePolls + 1 else 0

/-- Without a reading of the rewards they count as done. -/
def rewardsDone (recomputer : EpochStakesRecomputer) : Option Bool → Bool
  | some active => (recomputer.seenDistributing || active) && !active
  | none => true

/-- The bookkeeping after a recompute. -/
def recomputed (recomputer : EpochStakesRecomputer) (recompute : Recompute) : EpochStakesRecomputer :=
  let stablePolls := recomputer.stablePollsAfter recompute.total
  let recomputes := recomputer.recomputes + 1
  let noted :=
    { recomputer with
      prevTotal := some recompute.total
      stablePolls, recomputes
      seenDistributing := recomputer.seenDistributing || recompute.rewards = some true
      lastRecompute := some recompute.time }
  if recomputer.converged then
    if stablePolls = 0 then { noted with converged := false, recomputes := 0 } else noted
  else
    let stable := decide (stablePollsRequired ≤ stablePolls)
    { noted with
      converged :=
        recomputer.rewardsDone recompute.rewards && stable || decide (maxRecomputesPerEpoch ≤ recomputes) }

end EpochStakesRecomputer

namespace Recomputing

def new : Recomputing := ⟨.new, 0, []⟩

/-- A new epoch starts over. -/
def enterEpoch (system : Recomputing) (epoch : ℕ) : Recomputing :=
  if system.recomputer.workingEpoch = some epoch then system
  else { system with recomputer := { EpochStakesRecomputer.new with workingEpoch := some epoch }, log := [] }

/-- The turn in its epoch. -/
def refresh (system : Recomputing) (reading : PollReading) : Recomputing :=
  if system.recomputer.rests system.now then system
  else
    match reading.total with
    | none => { system with now := system.now + reading.took }
    | some total =>
      let recompute := ⟨total, system.now + reading.took, reading.rewards⟩
      { recomputer := system.recomputer.recomputed recompute
        now := system.now + reading.took
        log := system.log ++ [recompute] }

/-- One turn of the loop. -/
def poll (system : Recomputing) (reading : PollReading) : Recomputing :=
  let awake := { system with now := system.now + pollInterval + reading.elapsed }
  if !reading.healthy then awake
  else
    match reading.finalizedSlot with
    | none => awake
    | some finalizedSlot => (awake.enterEpoch (finalizedSlot / slotsPerEpoch)).refresh reading

def step (system : Recomputing) (reading : PollReading) : Option Recomputing := some (system.poll reading)

end Recomputing

end Cloudbreak.Model.VoteStakes
