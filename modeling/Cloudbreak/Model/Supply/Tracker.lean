import Cloudbreak.Model.Supply.Cache

/-! # The supply tracker

The running total, the status machine, the bootstrap window, the gap-close set and the cache. One block
is probed against the cache, its misses are resolved by a read, and the summed change is committed. The
read is a function argument here; the system model supplies the stored rows.
-/

namespace Cloudbreak.Model.Supply

open Cloudbreak.ToMathlib
open NonCirculating (StakeBlock)

/-- One account's update in a block. -/
structure Pending where
  pubkey : Pubkey
  owner : Pubkey
  lamports : ℕ
deriving DecidableEq, Repr

structure TouchedAccount where
  slot : ℕ
  lamports : ℕ
deriving DecidableEq, Repr

/-- What `applyBlock` hands to `finishBlock`. -/
inductive BlockOutcome where
  | idle
  | bootstrapping
  | delta (delta : ℤ) (touched : List Pubkey)
  | readFailed
deriving DecidableEq, Repr

inductive SupplyStatus where
  | bootstrapping
  | live
  | gapFilling
  | stale
deriving DecidableEq, Repr

structure SupplyState where
  status : SupplyStatus
  bootstrapFailed : Bool
  total : ℕ
  slot : ℕ
  startupSlot : ℕ
  startupTouched : HashMap Pubkey TouchedAccount
  startupZeroPrev : Finset Pubkey
  gapCloses : HashMap Pubkey ℕ
  cache : HotAccounts

/-- The row a commit persists, without the non-circulating sum that the stake map adds to it. -/
structure SupplyCommit where
  slot : ℕ
  total : ℕ
deriving DecidableEq, Repr

/-- Adds a signed change to an unsigned 64-bit total, as the two casts of the source do. -/
def addDelta (total : ℕ) (delta : ℤ) : ℕ := ((total + delta) % 2 ^ 64).toNat

namespace SupplyState

def new (cap failPinCap : ℕ) : SupplyState where
  status := .bootstrapping
  bootstrapFailed := false
  total := 0
  slot := 0
  startupSlot := 0
  startupTouched := ∅
  startupZeroPrev := ∅
  gapCloses := ∅
  cache := .withCapacity cap failPinCap

def commit (state : SupplyState) : SupplyCommit := ⟨state.slot, state.total⟩

def setStartupTotal (state : SupplyState) (slot capitalization : ℕ) : SupplyState :=
  if state.status = .bootstrapping ∧ slot > state.startupSlot then
    { state with startupSlot := slot, total := capitalization }
  else state

def markBootstrapFailed (state : SupplyState) : SupplyState × Bool :=
  if state.status ≠ .bootstrapping ∨ state.bootstrapFailed then (state, false)
  else ({ state with bootstrapFailed := true }, true)

/-- The fold of `finishBootstrap` over the touched accounts: the window delta, the highest slot and the
accounts the window closed. -/
structure Window where
  delta : ℤ
  maxSlot : ℕ
  zeroPrev : Finset Pubkey

/-- One touched account of the window. `none` when its startup balance is unresolved. -/
def foldTouched (startupSlot : ℕ) (startupBalances : HashMap Pubkey ℕ) (window : Window)
    (pubkey : Pubkey) (account : TouchedAccount) : Option Window := do
  let window := if account.lamports = 0 then { window with zeroPrev := insert pubkey window.zeroPrev }
    else window
  if account.slot ≤ startupSlot then return window
  let balance ← startupBalances.lookup pubkey
  return { window with
    delta := window.delta + (account.lamports - balance)
    maxSlot := max window.maxSlot account.slot }

/-- Folds the window delta onto the anchor and flips live. -/
def finishBootstrap (state : SupplyState) (startupBalances : HashMap Pubkey ℕ) :
    Option (SupplyState × SupplyCommit) := do
  if state.status ≠ .bootstrapping ∨ state.startupSlot = 0 ∨ state.bootstrapFailed then none
  let window ← state.startupTouched.entries.foldlM
    (fun window item => foldTouched state.startupSlot startupBalances window item.1 item.2)
    (⟨0, state.startupSlot, ∅⟩ : Window)
  let state := { state with
    total := addDelta state.total window.delta
    slot := max state.slot window.maxSlot
    startupTouched := ∅
    startupZeroPrev := window.zeroPrev
    status := .live }
  return (state, state.commit)

def markGap (state : SupplyState) : SupplyState × Bool :=
  if state.status ≠ .live then (state, false) else ({ state with status := .gapFilling }, true)

/-- The repaired range is applied, so the gap-close skips are void. -/
def finishGap (state : SupplyState) : SupplyState :=
  if state.status = .gapFilling then { state with status := .live, gapCloses := ∅ } else state

def markStale (state : SupplyState) : SupplyState × Bool :=
  if state.status = .live ∨ state.status = .gapFilling then ({ state with status := .stale }, true)
  else (state, false)

def sweepIfDue (state : SupplyState) (slot : ℕ) : Option SupplyState :=
  if state.cache.sweepDue slot then do
    let (cache, _) ← state.cache.sweep slot
    return { state with cache }
  else some state

def buildBlockPending (accounts : List AccountInfo) : List Pending :=
  accounts.map fun account => ⟨account.pubkey, account.owner, account.lamports⟩

/-- Records one touch of the bootstrap window and warms the cache. -/
def touch (slot : ℕ) (state : SupplyState) (p : Pending) : SupplyState :=
  let state := { state with cache := (state.cache.probe p.pubkey p.lamports slot p.owner false).1 }
  if (state.startupTouched.lookup p.pubkey).all fun touched => touched.slot ≤ slot then
    { state with startupTouched := state.startupTouched.insert p.pubkey ⟨slot, p.lamports⟩ }
  else state

/-- Remembers a close of a live block inside a gap. -/
def noteGapClose (slot : ℕ) (gapCloses : HashMap Pubkey ℕ) (p : Pending) : HashMap Pubkey ℕ :=
  if p.lamports = 0 then
    gapCloses.insert p.pubkey ((gapCloses.lookup p.pubkey).elim slot fun closed => max closed slot)
  else gapCloses

/-- What the probes of one block have accumulated. -/
structure Probed where
  state : SupplyState
  delta : ℤ
  touched : List Pubkey
  misses : List Pending

def probeOne (slot : ℕ) (isRepaired : Bool) (stake : StakeBlock) (probed : Probed) (p : Pending) :
    Probed :=
  if p.pubkey ∈ stake.handled then probed
  else
    let state := probed.state
    let zeroPrev := decide (p.pubkey ∈ state.startupZeroPrev)
    let state := { state with startupZeroPrev := state.startupZeroPrev.erase p.pubkey }
    if isRepaired && !zeroPrev && (state.gapCloses.lookup p.pubkey).any fun closed => closed ≥ slot then
      { probed with state }
    else
      let touched := probed.touched ++ [p.pubkey]
      match state.cache.probe p.pubkey p.lamports slot p.owner zeroPrev with
      | (cache, .hit delta) =>
        { probed with state := { state with cache }, delta := probed.delta + delta, touched }
      | (cache, .miss) =>
        { probed with state := { state with cache }, touched, misses := probed.misses ++ [p] }

/-- Phase one: hits fold in place, misses come back for the read. -/
def probeBlock (state : SupplyState) (slot : ℕ) (isRepaired : Bool) (pending : List Pending)
    (stake : StakeBlock) : SupplyState × BlockOutcome × List Pending :=
  match state.status with
  | .bootstrapping => (pending.foldl (touch slot) state, .bootstrapping, [])
  | .stale => (state, .idle, [])
  | .live | .gapFilling =>
    if !isRepaired && decide (slot ≤ state.slot) then (state, .idle, [])
    else
      let gapCloses := if !isRepaired && decide (state.status = .gapFilling) then
        pending.foldl (noteGapClose slot) state.gapCloses else state.gapCloses
      let probed := pending.foldl (probeOne slot isRepaired stake)
        ⟨{ state with gapCloses }, stake.delta, [], []⟩
      (probed.state, .delta probed.delta probed.touched, probed.misses)

/-- One resolved miss: its change, and the entry it leaves. -/
def resolveMiss (slot : ℕ) (prev : Pubkey → Option PrevRow) (probed : Probed) (p : Pending) : Probed :=
  let (cache, delta) := probed.state.cache.applyMiss p.pubkey p.lamports slot p.owner (prev p.pubkey)
  { probed with
    state := { probed.state with cache }
    delta := probed.delta + delta
    touched := probed.touched ++ [p.pubkey] }

/-- The per-block delta path. `read` is the batched miss read: `none` after two failures. -/
def applyBlock (state : SupplyState) (slot : ℕ) (isRepaired : Bool) (pending : List Pending)
    (stake : StakeBlock) (read : List Pubkey → Option (Pubkey → Option PrevRow)) :
    SupplyState × BlockOutcome :=
  match state.probeBlock slot isRepaired pending stake with
  | (state, .delta delta touched, misses) =>
    if misses = [] then (state, .delta delta touched)
    else
      match read (misses.map Pending.pubkey) with
      | none => (state.markStale.1, .readFailed)
      | some prev =>
        let probed := misses.foldl (resolveMiss slot prev) ⟨state, delta, touched, []⟩
        (probed.state, .delta probed.delta probed.touched)
  | (state, outcome, _) => (state, outcome)

/-- Advances the running total and, when live, returns the row to persist. -/
def commitBlock (state : SupplyState) (slot : ℕ) (blockDelta : ℤ) :
    SupplyState × Option SupplyCommit :=
  let state := { state with slot := max state.slot slot }
  if slot ≤ state.startupSlot then (state, none)
  else
    match state.status with
    | .bootstrapping | .stale => (state, none)
    | .gapFilling => ({ state with total := addDelta state.total blockDelta }, none)
    | .live =>
      let state := { state with total := addDelta state.total blockDelta }
      (state, some state.commit)

/-- Commits the outcome. A write failure pins the touched accounts, or marks the tracker stale past the
pin cap; during bootstrap it poisons the seed. -/
def finishBlock (state : SupplyState) (slot : ℕ) (outcome : BlockOutcome) (blockWritesOk : Bool) :
    SupplyState × Option SupplyCommit :=
  match outcome with
  | .idle | .readFailed => (state, none)
  | .bootstrapping => (if blockWritesOk then state else state.markBootstrapFailed.1, none)
  | .delta delta touched =>
    if blockWritesOk then state.commitBlock slot delta
    else
      match state.cache.pinFailed touched with
      | none => (state.markStale.1, none)
      | some cache => { state with cache }.commitBlock slot delta

end SupplyState

end Cloudbreak.Model.Supply
