import Cloudbreak.ToMathlib.HashMap
import Cloudbreak.Model.Account

/-! # The stake map's records and the membership state

One record per stake or pinned account carries its balance, its lockup and the evaluated flags. The
membership side holds the clock, the member set, the two expiry sets and the running sum. A flag byte
of the source is one Boolean per bit here. The running sum is an integer: the source keeps it unsigned
and publishes its low 64 bits, which are the same numbers.
-/

namespace Cloudbreak.Model.NonCirculating

open Cloudbreak.ToMathlib

/-- The Clock sysvar fields membership depends on; the slot orders clocks. -/
structure BlockClock where
  slot : ℕ
  epoch : ℕ
  unixTimestamp : ℤ
deriving DecidableEq, Repr

/-- The lockup and the withdrawer of an `Initialized` or `Stake` account. -/
structure StakeMeta where
  unixTimestamp : ℤ
  epoch : ℕ
  withdrawer : Pubkey
deriving DecidableEq, Repr

structure StakeEntry where
  lamports : ℕ
  lockupUnixTimestamp : ℤ
  lockupEpoch : ℕ
  slot : ℕ
  stakeOwned : Bool
  lockup : Bool
  listedWithdrawer : Bool
  pinned : Bool
  member : Bool
  inByEpoch : Bool
  inByTimestamp : Bool
deriving DecidableEq, Repr

/-- Agave's rule: a pinned account, or a stake account whose lockup is in force or whose withdrawer
is listed. -/
def StakeEntry.evaluate (entry : StakeEntry) (clock : BlockClock) : Bool :=
  entry.pinned ||
    (entry.stakeOwned && entry.lockup &&
      (entry.listedWithdrawer || decide (entry.lockupUnixTimestamp > clock.unixTimestamp) ||
        decide (entry.lockupEpoch > clock.epoch)))

/-- What one block did to the stake map. -/
structure StakeBlock where
  delta : ℤ
  handled : Finset Pubkey
  expired : List (Pubkey × ℕ)
  membersChanged : Bool
deriving DecidableEq

def StakeBlock.default : StakeBlock := ⟨0, ∅, [], false⟩

/-- An expiry set in ascending order: the next member to expire is its head. -/
abbrev ExpirySet (κ : Type) := List (κ × Pubkey)

namespace ExpirySet

variable {κ : Type} [LinearOrder κ]

def insert (item : κ × Pubkey) (set : ExpirySet κ) : ExpirySet κ :=
  if item ∈ set then set
  else set.orderedInsert (fun a b => a.1 < b.1 ∨ a.1 = b.1 ∧ a.2 ≤ b.2) item

def remove (item : κ × Pubkey) (set : ExpirySet κ) : ExpirySet κ := set.erase item

end ExpirySet

structure Membership where
  clock : Option BlockClock
  members : Finset Pubkey
  byEpoch : ExpirySet ℕ
  byTimestamp : ExpirySet ℤ
  total : ℤ

namespace Membership

/-- Stores a newer clock; one at or below the stored slot is ignored. -/
def setClock (membership : Membership) (clock : BlockClock) : Membership × Bool :=
  if membership.clock.any fun current => clock.slot ≤ current.slot then (membership, false)
  else ({ membership with clock := some clock }, true)

/-- Drops the entry's set placement and its share of the total. -/
def unplace (membership : Membership) (pubkey : Pubkey) (entry : StakeEntry) : Membership :=
  { membership with
    byEpoch := if entry.inByEpoch then membership.byEpoch.remove (entry.lockupEpoch, pubkey)
      else membership.byEpoch
    byTimestamp :=
      if entry.inByTimestamp then membership.byTimestamp.remove (entry.lockupUnixTimestamp, pubkey)
      else membership.byTimestamp
    total := if entry.member then membership.total - entry.lamports else membership.total }

/-- Evaluates the entry, sets its flags, and adds it to the set it expires from and to the total. -/
def placeAt (membership : Membership) (clock : BlockClock) (pubkey : Pubkey) (entry : StakeEntry) :
    Membership × StakeEntry × Bool :=
  let member := entry.evaluate clock
  -- only a lockup-only member can expire
  let expires := member && !entry.pinned && !entry.listedWithdrawer
  let inByEpoch := expires && decide (entry.lockupEpoch > clock.epoch)
  let inByTimestamp := expires && !decide (entry.lockupEpoch > clock.epoch)
  ({ membership with
      byEpoch := if inByEpoch then membership.byEpoch.insert (entry.lockupEpoch, pubkey)
        else membership.byEpoch
      byTimestamp :=
        if inByTimestamp then membership.byTimestamp.insert (entry.lockupUnixTimestamp, pubkey)
        else membership.byTimestamp
      total := if member then membership.total + entry.lamports else membership.total
      members := if member then insert pubkey membership.members else membership.members.erase pubkey },
    { entry with member, inByEpoch, inByTimestamp }, member)

/-- The source expects a clock here, and a live tracker has one. -/
def place (membership : Membership) (pubkey : Pubkey) (entry : StakeEntry) :
    Membership × StakeEntry × Bool :=
  match membership.clock with
  | some clock => membership.placeAt clock pubkey entry
  | none => (membership, entry, false)

end Membership

def noteFlip (wasMember isMember : Bool) (block : StakeBlock) : StakeBlock :=
  if wasMember = isMember then block else { block with membersChanged := true }

/-- The stake map with the membership state and the block outcome, as the expiries update them. -/
structure Expiring where
  membership : Membership
  accounts : HashMap Pubkey StakeEntry
  block : StakeBlock

namespace Expiring

def leave (state : Expiring) (pubkey : Pubkey) (entry : StakeEntry) : Expiring where
  membership := { state.membership with
    total := state.membership.total - entry.lamports
    members := state.membership.members.erase pubkey }
  accounts := state.accounts.insert pubkey { entry with member := false }
  block := noteFlip true false
    { state.block with expired := state.block.expired ++ [(pubkey, entry.lamports)] }

/-- One epoch expiry. A member whose timestamp is still in force moves to the timestamp set. -/
def popEpoch (clock : BlockClock) (state : Expiring) (pubkey : Pubkey) : Expiring :=
  match state.accounts.lookup pubkey with
  | none => state
  | some entry =>
    let entry := { entry with inByEpoch := false }
    if entry.lockupUnixTimestamp > clock.unixTimestamp then
      { state with
        membership := { state.membership with
          byTimestamp := state.membership.byTimestamp.insert (entry.lockupUnixTimestamp, pubkey) }
        accounts := state.accounts.insert pubkey { entry with inByTimestamp := true } }
    else state.leave pubkey entry

def popTimestamp (state : Expiring) (pubkey : Pubkey) : Expiring :=
  match state.accounts.lookup pubkey with
  | none => state
  | some entry => state.leave pubkey { entry with inByTimestamp := false }

/-- Pops the epochs the clock has passed, from the head of the set. -/
def expireEpochs (clock : BlockClock) (state : Expiring) : ExpirySet ℕ → Expiring
  | [] => { state with membership := { state.membership with byEpoch := [] } }
  | (epoch, pubkey) :: rest =>
    if epoch > clock.epoch then
      { state with membership := { state.membership with byEpoch := (epoch, pubkey) :: rest } }
    else expireEpochs clock (state.popEpoch clock pubkey) rest

/-- Pops the timestamps the clock has passed, from the head of the set. -/
def expireTimestamps (clock : BlockClock) (state : Expiring) : ExpirySet ℤ → Expiring
  | [] => { state with membership := { state.membership with byTimestamp := [] } }
  | (unixTimestamp, pubkey) :: rest =>
    if unixTimestamp > clock.unixTimestamp then
      { state with
        membership := { state.membership with byTimestamp := (unixTimestamp, pubkey) :: rest } }
    else expireTimestamps clock (state.popTimestamp pubkey) rest

/-- Pops every member the clock has passed, the epochs first. -/
def expire (clock : BlockClock) (state : Expiring) : Expiring :=
  let state := state.expireEpochs clock state.membership.byEpoch
  state.expireTimestamps clock state.membership.byTimestamp

end Expiring

end Cloudbreak.Model.NonCirculating
