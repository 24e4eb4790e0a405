import Mathlib
import Cloudbreak.Model.Account
import Cloudbreak.ToMathlib.HashMap

/-! # The largest-accounts tracker

One top per tracked mint and three sentinel tops for native SOL. A block updates the tops it touches and emits
what changed in their persisted part: a record, a mint that became stale, or a mint whose top emptied.
-/

namespace Cloudbreak.Model.LargestAccounts

open Cloudbreak.ToMathlib

/-- Rows persisted for a record. The top in memory can be larger. -/
def persistedTopN : ℕ := 20

def solSentinelMint : Pubkey := 0

def circulatingSentinelMint : Pubkey := 0x0101010101010101010101010101010101010101010101010101010101010101

def nonCirculatingSentinelMint : Pubkey := 0x0202020202020202020202020202020202020202020202020202020202020202

def isSentinel (mint : Pubkey) : Bool :=
  mint = solSentinelMint ∨ mint = circulatingSentinelMint ∨ mint = nonCirculatingSentinelMint

/-- The payload of one persisted row. -/
structure MintRecord where
  mint : Pubkey
  slot : ℕ
  rows : List (Pubkey × ℕ)
deriving DecidableEq, Repr

/-- One account's state after a block. -/
structure PendingLargestAccount where
  writeVersion : ℕ
  lamports : ℕ
  nonCirculating : Bool
  token : Option (Pubkey × ℕ)
deriving DecidableEq, Repr

/-- What has to be persisted after a block. -/
structure BlockOutcome where
  records : List MintRecord
  newlyStale : List Pubkey
  cleared : List Pubkey
deriving DecidableEq, Repr

def BlockOutcome.default : BlockOutcome := ⟨[], [], []⟩

/-- A slot and a write version, compared in this order. -/
abbrev Stamp := ℕ ×ₗ ℕ

/-- A holder's amount with the stamp that set it. -/
structure Entry where
  amount : ℕ
  slot : ℕ
  writeVersion : ℕ
deriving DecidableEq, Repr

def Entry.stamp (entry : Entry) : Stamp := toLex (entry.slot, entry.writeVersion)

/-! ## One top -/

/-- The holders of one mint. A stale top has no last record. -/
structure MintTop where
  entries : HashMap Pubkey Entry
  cachedMin : Option (Pubkey × ℕ)
  droppedFloor : ℕ
  stale : Bool
  lastRecord : List (Pubkey × ℕ)
  staleEmpty : stale = true → lastRecord = []

inductive ComputedTop where
  | sound (rows : List (Pubkey × ℕ))
  | unsound

namespace MintTop

theorem staleEmpty_false (rows : List (Pubkey × ℕ)) : false = true → rows = [] :=
  fun stale => absurd stale Bool.false_ne_true

theorem staleEmpty_nil (stale : Bool) : stale = true → ([] : List (Pubkey × ℕ)) = [] := fun _ => rfl

def default : MintTop := ⟨∅, none, 0, false, [], staleEmpty_nil false⟩

/-- The holders with their amounts. -/
def amounts (top : MintTop) : List (Pubkey × ℕ) := top.entries.toList.map fun item => (item.1, item.2.amount)

def minEntry (top : MintTop) : Option (Pubkey × ℕ) := top.amounts.argmin fun item => toLex (item.2, item.1)

def refreshCachedMin (top : MintTop) : MintTop := { top with cachedMin := top.minEntry }

/-- The persisted part of a top, unless evictions leave its lower end open. -/
def computeTop (top : MintTop) : ComputedTop :=
  let rows := (top.amounts.insertionSort fun a b => toLex (b.2, b.1) ≤ toLex (a.2, a.1)).take persistedTopN
  if rows.length < persistedTopN ∧ 0 < top.droppedFloor then .unsound
  else if rows.getLast?.any fun last => last.2 < top.droppedFloor then .unsound
  else .sound rows

/-- The second part says whether the top was not stale before. -/
def latchStale (top : MintTop) : MintTop × Bool :=
  if top.stale then (top, false)
  else ({ top with stale := true, lastRecord := [], staleEmpty := staleEmpty_nil true }, true)

/-- Drops one entry for good: the floor keeps its amount. -/
def dropVictim (top : MintTop) (victim : Pubkey × ℕ) : MintTop :=
  { top with entries := top.entries.erase victim.1, droppedFloor := max top.droppedFloor victim.2 }

/-- Lowers the cached minimum to a new amount below it. -/
def lowerCachedMin (top : MintTop) (pubkey : Pubkey) (amount : ℕ) : MintTop :=
  match top.cachedMin with
  | some (minPubkey, minAmount) =>
    if toLex (amount, pubkey) < toLex (minAmount, minPubkey) then { top with cachedMin := some (pubkey, amount) }
    else top
  | none => { top with cachedMin := some (pubkey, amount) }

end MintTop

/-! ## The state behind the mutex -/

inductive Status where
  | bootstrapping
  | live
deriving DecidableEq, Repr

structure SeedAccount where
  pubkey : Pubkey
  amount : ℕ
  slot : ℕ
  writeVersion : ℕ
deriving DecidableEq, Repr

structure TrackerState where
  status : Status
  maxAppliedSlot : ℕ
  mints : HashMap Pubkey MintTop
  /-- The mint under which a token account is held. -/
  memberIndex : HashMap Pubkey Pubkey
  tombstones : HashMap Pubkey Stamp
  seedReservoir : HashMap Pubkey (List SeedAccount)

/-- The state under an update, with the mints it touched. -/
structure Touching where
  state : TrackerState
  touched : Finset Pubkey

namespace TrackerState

def recordTombstone (state : TrackerState) (pubkey : Pubkey) (stamp : Stamp) : TrackerState :=
  let entry := (state.tombstones.lookup pubkey).getD stamp
  { state with tombstones := state.tombstones.insert pubkey (if entry < stamp then stamp else entry) }

def setTop (state : TrackerState) (mint : Pubkey) (top : MintTop) : TrackerState :=
  { state with mints := state.mints.insert mint top }

/-- Takes an account out of the reverse index. The sentinels have none. -/
def unindex (state : TrackerState) (mint pubkey : Pubkey) : TrackerState :=
  if isSentinel mint then state else { state with memberIndex := state.memberIndex.erase pubkey }

def index (state : TrackerState) (mint pubkey : Pubkey) : TrackerState :=
  if isSentinel mint then state else { state with memberIndex := state.memberIndex.insert pubkey mint }

end TrackerState

namespace Touching

def touch (touching : Touching) (mint : Pubkey) : Touching :=
  { touching with touched := insert mint touching.touched }

/-- Removes a holder under a newer stamp than its own. -/
def removeMember (touching : Touching) (mint pubkey : Pubkey) (stamp : Stamp) : Touching :=
  match touching.state.mints.lookup mint with
  | none => touching
  | some top =>
    match top.entries.lookup pubkey with
    | none => touching
    | some entry =>
      if entry.stamp < stamp then
        let removed := { top with entries := top.entries.erase pubkey }
        let refreshed := if top.cachedMin.any fun item => item.1 = pubkey then removed.refreshCachedMin else removed
        { touching with state := (touching.state.setTop mint refreshed).unindex mint pubkey }.touch mint
      else touching

/-- Raises the floor to a dropped amount. -/
def dropAmount (touching : Touching) (mint : Pubkey) (top : MintTop) (amount : ℕ) : Touching :=
  if top.droppedFloor < amount then
    { touching with state := touching.state.setTop mint { top with droppedFloor := amount } }.touch mint
  else touching

/-- Adds a holder that the top does not have. The evicted minimum is the second argument. -/
def insertMember (touching : Touching) (mint pubkey : Pubkey) (top : MintTop) (entry : Entry) (minEvicted : Bool) :
    Touching :=
  let inserted := { top with entries := top.entries.insert pubkey entry }
  let cached := if minEvicted then inserted.refreshCachedMin else inserted.lowerCachedMin pubkey entry.amount
  { touching with state := (touching.state.setTop mint cached).index mint pubkey }.touch mint

/-- Updates a holder the top has. -/
def updateMember (touching : Touching) (mint pubkey : Pubkey) (top : MintTop) (old entry : Entry) : Touching :=
  if old.stamp < entry.stamp then
    let updated := { top with entries := top.entries.insert pubkey entry }
    let cached :=
      if top.cachedMin.any fun item => item.1 = pubkey then updated.refreshCachedMin
      else updated.lowerCachedMin pubkey entry.amount
    { touching with state := touching.state.setTop mint cached }.touch mint
  else touching

/-- One balance of a mint. A block at or below the newest applied slot may only raise the floor. -/
def applyUpdate (touching : Touching) (mint pubkey : Pubkey) (entry : Entry) (bootstrapping oldBlock : Bool) (k : ℕ) :
    Touching :=
  if bootstrapping && (touching.state.tombstones.lookup pubkey).any fun tombstone => entry.stamp ≤ tombstone then
    touching
  else
    match touching.state.mints.lookup mint with
    | none => touching
    | some top =>
      match top.entries.lookup pubkey with
      | some old => touching.updateMember mint pubkey top old entry
      | none =>
        if oldBlock then touching.dropAmount mint top entry.amount
        else if !bootstrapping && decide (k ≤ top.entries.entries.length) then
          match top.cachedMin with
          -- The source expects a full top to have a minimum.
          | none => touching
          | some (minPubkey, minAmount) =>
            if entry.amount ≤ minAmount then touching.dropAmount mint top entry.amount
            else
              { touching with state := touching.state.unindex mint minPubkey }.insertMember mint pubkey
                (top.dropVictim (minPubkey, minAmount)) entry true
        else touching.insertMember mint pubkey top entry false

end Touching

/-! ## The tracker -/

/-- A member of the non-circulating set with its balance. -/
structure NonCirculatingBalance where
  pubkey : Pubkey
  lamports : ℕ
  slot : ℕ
deriving DecidableEq, Repr

/-- What one pass over a snapshot file found. -/
structure LargestAccountsSeed where
  mints : HashMap Pubkey (List SeedAccount)
  closes : List (Pubkey × Stamp)

/-- The reservoir sizes and the tracked mints. Without `solK` there are no sentinel tops. -/
structure Shared where
  solK : Option ℕ
  trackedMints : List Pubkey
  tokenK : ℕ

def Shared.kFor (shared : Shared) (mint : Pubkey) : ℕ :=
  if isSentinel mint then shared.solK.getD 0 else shared.tokenK

def sentinels : List Pubkey := [solSentinelMint, circulatingSentinelMint, nonCirculatingSentinelMint]

def Shared.allMints (shared : Shared) : List Pubkey :=
  shared.trackedMints ++ if shared.solK.isSome then sentinels else []

/-- Keeps the newest state of every account, then the top `k` of those by amount. -/
def LargestAccountsSeed.shrink (entries : List SeedAccount) (k : ℕ) : List SeedAccount :=
  let byPubkey := entries.insertionSort fun a b =>
    toLex (a.pubkey, toLex (b.slot, toLex (b.writeVersion, b.amount))) ≤
      toLex (b.pubkey, toLex (a.slot, toLex (a.writeVersion, a.amount)))
  let deduped := byPubkey.foldl (fun kept entry =>
    if kept.getLast?.any fun last => last.pubkey = entry.pubkey then kept else kept ++ [entry]) []
  (deduped.insertionSort fun a b => toLex (b.amount, b.pubkey) ≤ toLex (a.amount, a.pubkey)).take k

/-- A write version above every other: a balance of the flip is the final state of its slot. -/
def u64Max : ℕ := 2 ^ 64 - 1

namespace Touching

def removeFromSentinels (touching : Touching) (pubkey : Pubkey) (stamp : Stamp) : Touching :=
  sentinels.foldl (fun touching sentinel => touching.removeMember sentinel pubkey stamp) touching

/-- Takes an account out of the mint it is held under, unless the update keeps it there. -/
def leaveMint (touching : Touching) (pubkey : Pubkey) (updateMint : Option Pubkey) (stamp : Stamp) : Touching :=
  match touching.state.memberIndex.lookup pubkey with
  | some currentMint =>
    if updateMint = some currentMint then touching else touching.removeMember currentMint pubkey stamp
  | none => touching

/-- One account of a block. -/
def applyPending (shared : Shared) (slot : ℕ) (bootstrapping oldBlock : Bool) (touching : Touching)
    (item : Pubkey × PendingLargestAccount) : Touching :=
  let (pubkey, update) := item
  let stamp : Stamp := toLex (slot, update.writeVersion)
  let apply (touching : Touching) (mint : Pubkey) (amount : ℕ) : Touching :=
    touching.applyUpdate mint pubkey ⟨amount, slot, update.writeVersion⟩ bootstrapping oldBlock (shared.kFor mint)
  let left := touching.leaveMint pubkey (update.token.map Prod.fst) stamp
  if update.lamports = 0 then
    let recorded :=
      if bootstrapping then { left with state := left.state.recordTombstone pubkey stamp } else left
    recorded.removeFromSentinels pubkey stamp
  else
    let held := update.token.elim left fun token => apply left token.1 token.2
    let sol := apply held solSentinelMint update.lamports
    let (classMint, otherClassMint) :=
      if update.nonCirculating then (nonCirculatingSentinelMint, circulatingSentinelMint)
      else (circulatingSentinelMint, nonCirculatingSentinelMint)
    apply (sol.removeMember otherClassMint pubkey stamp) classMint update.lamports

/-- One member of the non-circulating set at the flip. -/
def seedMember (k : ℕ) (touching : Touching) (balance : NonCirculatingBalance) : Touching :=
  let removed := touching.removeMember circulatingSentinelMint balance.pubkey (toLex (balance.slot, u64Max))
  if balance.lamports = 0 then removed
  else removed.applyUpdate nonCirculatingSentinelMint balance.pubkey ⟨balance.lamports, balance.slot, u64Max⟩
    false false k

/-- Seeds the two class sentinels: the members, and the SOL top without them. -/
def seedClassSentinels (touching : Touching) (balances : List NonCirculatingBalance) (k : ℕ) : Touching :=
  let seeded := balances.foldl (seedMember k) touching
  match seeded.state.mints.lookup solSentinelMint with
  | none => seeded
  | some sol =>
    let candidates := sol.entries.toList.filter fun item => !(balances.map NonCirculatingBalance.pubkey).contains item.1
    let floored :=
      match seeded.state.mints.lookup circulatingSentinelMint with
      | none => seeded
      | some top =>
        { seeded with
          state := seeded.state.setTop circulatingSentinelMint { top with droppedFloor := sol.droppedFloor } }
    candidates.foldl (fun touching item =>
      touching.applyUpdate circulatingSentinelMint item.1 item.2 false false k) floored

end Touching

namespace TrackerState

/-- One empty top for every mint of the configuration. -/
def new (shared : Shared) : TrackerState where
  status := .bootstrapping
  maxAppliedSlot := 0
  mints := shared.allMints.foldl (fun mints mint => mints.insert mint MintTop.default) ∅
  memberIndex := ∅
  tombstones := ∅
  seedReservoir := ∅

/-- Cuts a top to its reservoir size. -/
def trim (state : TrackerState) (mint : Pubkey) (k : ℕ) : TrackerState :=
  match state.mints.lookup mint with
  | none => state
  | some top =>
    if top.entries.entries.length ≤ k then state
    else
      let victims := (top.amounts.insertionSort fun a b => toLex (a.2, a.1) ≤ toLex (b.2, b.1)).take
        (top.entries.entries.length - k)
      let trimmed := victims.foldl MintTop.dropVictim top
      victims.foldl (fun state victim => state.unindex mint victim.1) (state.setTop mint trimmed.refreshCachedMin)

/-- Emits a mint's persisted part when it changed. -/
def emit (slot : ℕ) (emitting : TrackerState × BlockOutcome) (mint : Pubkey) : TrackerState × BlockOutcome :=
  let (state, outcome) := emitting
  match state.mints.lookup mint with
  | none => (state, outcome)
  | some top =>
    match top.computeTop with
    | .unsound =>
      (state.setTop mint top.latchStale.1,
        if top.latchStale.2 then { outcome with newlyStale := outcome.newlyStale ++ [mint] } else outcome)
    | .sound rows =>
      if rows = top.lastRecord then
        (state.setTop mint { top with stale := false, staleEmpty := MintTop.staleEmpty_false _ }, outcome)
      else
        (state.setTop mint
            { top with stale := false, lastRecord := rows, staleEmpty := MintTop.staleEmpty_false rows },
          if rows = [] then { outcome with cleared := outcome.cleared ++ [mint] }
          else { outcome with records := outcome.records ++ [⟨mint, slot, rows⟩] })

/-- Merges a snapshot file while the tracker is bootstrapping. -/
def mergeSeed (shared : Shared) (state : TrackerState) (seed : LargestAccountsSeed) : TrackerState :=
  if state.status ≠ .bootstrapping then state
  else
    let closed := seed.closes.foldl (fun (touching : Touching) close =>
      let (pubkey, stamp) := close
      let state := { touching.state with maxAppliedSlot := max touching.state.maxAppliedSlot (ofLex stamp).1 }
      let recorded : Touching := { touching with state := state.recordTombstone pubkey stamp }
      let removed := (recorded.state.memberIndex.lookup pubkey).elim recorded fun mint =>
        recorded.removeMember mint pubkey stamp
      removed.removeFromSentinels pubkey stamp) ⟨state, ∅⟩
    seed.mints.toList.foldl (fun state item =>
      let (mint, entries) := item
      { state with
        maxAppliedSlot := (entries.map SeedAccount.slot).foldl max state.maxAppliedSlot
        seedReservoir := state.seedReservoir.insert mint
          (LargestAccountsSeed.shrink ((state.seedReservoir.lookup mint).getD [] ++ entries) (shared.kFor mint)) })
      closed.state

/-- What a block does to the tops, before anything is emitted. -/
def applyAccounts (shared : Shared) (state : TrackerState) (slot : ℕ)
    (pending : List (Pubkey × PendingLargestAccount)) : Touching :=
  let bootstrapping := decide (state.status = .bootstrapping)
  let oldBlock := !bootstrapping && decide (slot ≤ state.maxAppliedSlot)
  pending.foldl (Touching.applyPending shared slot bootstrapping oldBlock)
    ⟨{ state with maxAppliedSlot := max state.maxAppliedSlot slot }, ∅⟩

/-- One block, in one hold of the mutex. `order` is the order in which the touched mints are iterated. -/
def applyBlock (shared : Shared) (state : TrackerState) (slot : ℕ)
    (pending : List (Pubkey × PendingLargestAccount)) (order : List Pubkey) : Option (TrackerState × BlockOutcome) :=
  let touching := applyAccounts shared state slot pending
  if order.Nodup ∧ order.toFinset = touching.touched then
    some <|
      if state.status = .bootstrapping then (touching.state, .default)
      else order.foldl (emit touching.state.maxAppliedSlot) (touching.state, .default)
  else none

/-- Applies the seed reservoir to the tops. -/
def applyReservoir (shared : Shared) (state : TrackerState) : Touching :=
  state.seedReservoir.toList.foldl (fun touching item =>
    item.2.foldl (fun touching account =>
      touching.applyUpdate item.1 account.pubkey ⟨account.amount, account.slot, account.writeVersion⟩ true false
        (shared.kFor item.1)) touching)
    ⟨{ state with seedReservoir := ∅ }, ∅⟩

/-- The seed and the class sentinels at the flip, before anything is emitted. -/
def goLive (shared : Shared) (state : TrackerState) (balances : List NonCirculatingBalance) : TrackerState :=
  let seeded := state.applyReservoir shared
  let classed := shared.solK.elim seeded (seeded.seedClassSentinels balances)
  { classed.state with tombstones := ∅, status := .live }

/-- Goes live and tells of every mint. -/
def finishBootstrap (shared : Shared) (state : TrackerState) (balances : List NonCirculatingBalance) :
    TrackerState × BlockOutcome :=
  if state.status ≠ .bootstrapping then (state, .default)
  else
    let live := state.goLive shared balances
    live.mints.keys.foldl (fun emitting mint =>
      emit live.maxAppliedSlot (emitting.1.trim mint (shared.kFor mint), emitting.2) mint) (live, .default)

def markMintStale (state : TrackerState) (mint : Pubkey) : TrackerState :=
  match state.mints.lookup mint with
  | none => state
  | some top => state.setTop mint top.latchStale.1

end TrackerState

end Cloudbreak.Model.LargestAccounts
