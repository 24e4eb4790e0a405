import Cloudbreak.Model.NonCirculating.Entry

/-! # The non-circulating tracker

The stake map, its snapshot seed, the bootstrap flip and the per-block path. The two account layouts
that the source reads with a library decoder are functions of the configuration, so every result about
the tracker holds for every decoder.
-/

namespace Cloudbreak.Model.NonCirculating

open Cloudbreak.ToMathlib

def stakeProgramId : Pubkey := 0x06a1d8179137542a983437bdfe2a7ab2557f535c8a78722b68a49dc000000000

def clockSysvarId : Pubkey := 0x06a7d51718c774c928566398691d5eb68b5eb8a39b4b6d5c73555b2100000000

/-- The pinned accounts, the listed withdrawers and the two layout decoders. The pinned list is a constant
that names no sysvar. -/
structure Shared where
  pinned : Finset Pubkey
  withdrawAuthorities : Finset Pubkey
  deserializeClock : List UInt8 → Option BlockClock
  deserializeStake : List UInt8 → Option StakeMeta
  clockNotPinned : clockSysvarId ∉ pinned

/-- Builds the record for one write. Only a stake-owned account is parsed. -/
def Shared.entryFromAccount (shared : Shared) (stakeOwned pinned : Bool) (lamports : ℕ)
    (data : List UInt8) (slot : ℕ) : StakeEntry :=
  let entry : StakeEntry := ⟨lamports, 0, 0, slot, false, false, false, pinned, false, false, false⟩
  if !stakeOwned then entry
  else
    match shared.deserializeStake data with
    | none => { entry with stakeOwned := true }
    | some parsed =>
      { entry with
        stakeOwned := true
        lockup := true
        lockupUnixTimestamp := parsed.unixTimestamp
        lockupEpoch := parsed.epoch
        listedWithdrawer := decide (parsed.withdrawer ∈ shared.withdrawAuthorities) }

inductive Status where
  | bootstrapping
  | live
deriving DecidableEq, Repr

structure State where
  status : Status
  slot : ℕ
  accounts : HashMap Pubkey StakeEntry
  membership : Membership
  /-- The newest slot at which a block wrote an account the seed had not reached, under another owner. -/
  seedShadow : HashMap Pubkey ℕ

namespace State

/-- The tracker before the first seed: the pinned accounts are members from the start. -/
def new (shared : Shared) : State where
  status := .bootstrapping
  slot := 0
  accounts := ∅
  membership := ⟨none, shared.pinned, [], [], 0⟩
  seedShadow := ∅

/-- Seeds one snapshot account. The newest slot wins, and a write the blocks already saw shadows an
older seed. -/
def seedAccount (shared : Shared) (state : State) (account : AccountInfo) (slot : ℕ) : State :=
  if account.pubkey = clockSysvarId then
    match shared.deserializeClock account.data with
    | some clock => { state with membership := (state.membership.setClock clock).1 }
    | none => state
  else
    let stakeOwned := decide (account.owner = stakeProgramId)
    let pinned := decide (account.pubkey ∈ shared.pinned)
    if !stakeOwned && !pinned then state
    else
      let entry := shared.entryFromAccount stakeOwned pinned account.lamports account.data slot
      match state.accounts.lookup account.pubkey with
      | none =>
        if (state.seedShadow.lookup account.pubkey).all fun seen => seen < slot then
          { state with accounts := state.accounts.insert account.pubkey entry }
        else state
      | some old =>
        if old.slot < slot then { state with accounts := state.accounts.insert account.pubkey entry }
        else state

/-- Places every remaining entry once the tombstones are purged. -/
def placeAll (membership : Membership) (accounts : HashMap Pubkey StakeEntry) :
    Membership × HashMap Pubkey StakeEntry :=
  accounts.entries.foldl
    (fun placed item =>
      let next := placed.1.place item.1 item.2
      (next.1, placed.2.insert item.1 next.2.1))
    (membership, accounts)

/-- Flips the tracker live. `none` when there is nothing to flip or no clock arrived. -/
def finishBootstrap (state : State) : Option State :=
  if state.status = .live then none
  else if state.membership.clock.isNone then none
  else
    let kept := state.accounts.retain fun _ entry => entry.stakeOwned || entry.pinned
    let placed := placeAll state.membership kept
    some { state with
      status := .live
      accounts := placed.2
      membership := placed.1
      seedShadow := ∅ }

/-- The clock a block carries, when it is newer than the stored one, and the expiries it reaches. -/
def advanceClock (shared : Shared) (state : State) (accounts : List AccountInfo) (block : StakeBlock) :
    State × StakeBlock :=
  match (accounts.find? fun account => account.pubkey = clockSysvarId).bind
      fun account => shared.deserializeClock account.data with
  | none => (state, block)
  | some clock =>
    let (membership, advanced) := state.membership.setClock clock
    if advanced && decide (state.status = .live) then
      let expired := Expiring.expire clock ⟨membership, state.accounts, block⟩
      ({ state with membership := expired.membership, accounts := expired.accounts }, expired.block)
    else ({ state with membership }, block)

/-- Stores a new entry in place of `before`. A live tracker moves its membership as well. -/
def putEntry (current : State × StakeBlock) (pubkey : Pubkey) (before : Option StakeEntry)
    (entry : StakeEntry) : State × StakeBlock :=
  let (state, block) := current
  if state.status = .live then
    let unplaced := before.elim state.membership (state.membership.unplace pubkey)
    let (membership, placed, member) := unplaced.place pubkey entry
    ({ state with membership, accounts := state.accounts.insert pubkey placed },
      noteFlip (before.any StakeEntry.member) member block)
  else ({ state with accounts := state.accounts.insert pubkey entry }, block)

/-- Shadows a dropped write, so an older seed cannot resurrect the account. -/
def shadowSeed (state : State) (pubkey : Pubkey) (slot : ℕ) : State :=
  let seen := (state.seedShadow.lookup pubkey).elim slot fun seen => max seen slot
  { state with seedShadow := state.seedShadow.insert pubkey seen }

/-- One account of a block: a stake-owned or pinned write replaces its entry, and any other write to a
known account leaves a tombstone. -/
def applyAccount (shared : Shared) (slot : ℕ) (current : State × StakeBlock) (account : AccountInfo) :
    State × StakeBlock :=
  let (state, block) := current
  let live := decide (state.status = .live)
  let stakeOwned := decide (account.owner = stakeProgramId)
  let pinned := decide (account.pubkey ∈ shared.pinned)
  let entry := shared.entryFromAccount stakeOwned pinned account.lamports account.data slot
  match state.accounts.lookup account.pubkey with
  | none =>
    if !stakeOwned && !pinned then
      (if live then state else state.shadowSeed account.pubkey slot, block)
    else putEntry (state, block) account.pubkey none entry
  | some old =>
    let owned := live && old.stakeOwned
    let block := { block with
      handled := if owned then insert account.pubkey block.handled else block.handled
      delta := if owned && decide (old.slot < slot) then block.delta + (account.lamports - old.lamports)
        else block.delta }
    if old.slot ≥ slot then (state, block) else putEntry (state, block) account.pubkey (some old) entry

/-- The per-block path: the clock and its expiries first, then every account. A live block at or below
the applied slot was already applied. -/
def applyBlock (shared : Shared) (state : State) (slot : ℕ) (isRepaired : Bool)
    (accounts : List AccountInfo) : State × StakeBlock :=
  if !isRepaired && decide (slot ≤ state.slot) then (state, .default)
  else
    let advanced := advanceClock shared { state with slot := max state.slot slot } accounts .default
    accounts.foldl (applyAccount shared slot) advanced

end State

end Cloudbreak.Model.NonCirculating
