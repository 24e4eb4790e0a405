import Cloudbreak.Model.NonCirculating.Tracker

/-! # The tracker's feed, and its steps with their failures

A tracker is fed snapshot accounts, blocks and the bootstrap flip. The expiries and the sums of the source
can fail: an indexed pubkey may have no entry, and the unsigned total may underflow. The checked steps
return `none` there, and otherwise do what the plain steps do.
-/

namespace Cloudbreak.Model.NonCirculating

open Cloudbreak.ToMathlib

/-- What the snapshot passes and the block path hand to the tracker. -/
inductive Feed where
  | seed (slot : ℕ) (account : AccountInfo)
  | block (slot : ℕ) (isRepaired : Bool) (accounts : List AccountInfo)
  | finishBootstrap
deriving DecidableEq

/-- One delivery. `none` where the bootstrap cannot finish. -/
def State.feed (shared : Shared) (state : State) : Feed → Option State
  | .seed slot account => some (state.seedAccount shared account slot)
  | .block slot isRepaired accounts => some (state.applyBlock shared slot isRepaired accounts).1
  | .finishBootstrap => state.finishBootstrap

/-! ## Checked steps -/

def Membership.unplaceChecked (membership : Membership) (pubkey : Pubkey) (entry : StakeEntry) :
    Option Membership :=
  if entry.member && decide (membership.total < entry.lamports) then none
  else some (membership.unplace pubkey entry)

namespace Expiring

def leaveChecked (state : Expiring) (pubkey : Pubkey) (entry : StakeEntry) : Option Expiring :=
  if state.membership.total < entry.lamports then none else some (state.leave pubkey entry)

def popEpochChecked (clock : BlockClock) (state : Expiring) (pubkey : Pubkey) : Option Expiring :=
  (state.accounts.lookup pubkey).bind fun entry =>
    if entry.lockupUnixTimestamp > clock.unixTimestamp then some (state.popEpoch clock pubkey)
    else state.leaveChecked pubkey { entry with inByEpoch := false }

def popTimestampChecked (state : Expiring) (pubkey : Pubkey) : Option Expiring :=
  (state.accounts.lookup pubkey).bind fun entry =>
    state.leaveChecked pubkey { entry with inByTimestamp := false }

def expireEpochsChecked (clock : BlockClock) (state : Expiring) : ExpirySet ℕ → Option Expiring
  | [] => some { state with membership := { state.membership with byEpoch := [] } }
  | (epoch, pubkey) :: rest =>
    if epoch > clock.epoch then
      some { state with membership := { state.membership with byEpoch := (epoch, pubkey) :: rest } }
    else (state.popEpochChecked clock pubkey).bind fun state => expireEpochsChecked clock state rest

def expireTimestampsChecked (clock : BlockClock) (state : Expiring) : ExpirySet ℤ → Option Expiring
  | [] => some { state with membership := { state.membership with byTimestamp := [] } }
  | (unixTimestamp, pubkey) :: rest =>
    if unixTimestamp > clock.unixTimestamp then
      some { state with
        membership := { state.membership with byTimestamp := (unixTimestamp, pubkey) :: rest } }
    else (state.popTimestampChecked pubkey).bind fun state => expireTimestampsChecked clock state rest

def expireChecked (clock : BlockClock) (state : Expiring) : Option Expiring :=
  (state.expireEpochsChecked clock state.membership.byEpoch).bind fun state =>
    state.expireTimestampsChecked clock state.membership.byTimestamp

end Expiring

namespace State

def advanceClockChecked (shared : Shared) (state : State) (accounts : List AccountInfo) (block : StakeBlock) :
    Option (State × StakeBlock) :=
  match (accounts.find? fun account => account.pubkey = clockSysvarId).bind
      fun account => shared.deserializeClock account.data with
  | none => some (state, block)
  | some clock =>
    let (membership, advanced) := state.membership.setClock clock
    if advanced && decide (state.status = .live) then
      (Expiring.expireChecked clock ⟨membership, state.accounts, block⟩).map fun expired =>
        ({ state with membership := expired.membership, accounts := expired.accounts }, expired.block)
    else some ({ state with membership }, block)

/-- The one subtraction of a write is that of the entry it replaces. -/
def applyAccountChecked (shared : Shared) (slot : ℕ) (current : State × StakeBlock) (account : AccountInfo) :
    Option (State × StakeBlock) :=
  match current.1.accounts.lookup account.pubkey with
  | none => some (applyAccount shared slot current account)
  | some old =>
    if old.slot ≥ slot || decide (current.1.status ≠ .live) then some (applyAccount shared slot current account)
    else (current.1.membership.unplaceChecked account.pubkey old).map fun _ =>
      applyAccount shared slot current account

def applyBlockChecked (shared : Shared) (state : State) (slot : ℕ) (isRepaired : Bool)
    (accounts : List AccountInfo) : Option (State × StakeBlock) :=
  if !isRepaired && decide (slot ≤ state.slot) then some (state, .default)
  else
    (advanceClockChecked shared { state with slot := max state.slot slot } accounts .default).bind fun advanced =>
      accounts.foldlM (applyAccountChecked shared slot) advanced

end State

end Cloudbreak.Model.NonCirculating
