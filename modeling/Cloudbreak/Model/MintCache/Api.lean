import Cloudbreak.Model.MintCache.Store

/-! # The API's mint cache

The feed buffers the mint changes of every processed block. The slot syncronizer applies the buffered chain up
to a confirmed slot and then publishes the slot; one background task loads the table at startup and later
reloads what a missing block or a gap of the indexer left out. What happens under one lock is one event, so the
tasks interleave everywhere else. Metrics and the debug view are left out.
-/

namespace Cloudbreak.Model.MintCache

open Cloudbreak.ToMathlib

/-- Slots kept in the buffer. -/
def maxBufferedBlocks : ℕ := 20000

/-- Rows per page of the startup load. -/
def loadPage : ℕ := 100000

inductive PostgresReason where
  | loading
  | newerThanRequest
  | behind
  | missing
deriving DecidableEq, Repr

/-- The answer for one mint at a request slot. -/
inductive MintLookup where
  | found (state : MintState)
  | closed
  | postgres (reason : PostgresReason)
deriving DecidableEq, Repr

inductive ReloadReason where
  | blockMissing
  | healthRestored
deriving DecidableEq, Repr

/-- A reload of the rows changed after a slot, to run once the table is complete through the target. -/
structure Reload where
  after : ℕ
  target : ℕ
  reason : ReloadReason
deriving DecidableEq, Repr

inductive Status where
  | loading
  | live
deriving DecidableEq, Repr

/-- The confirmed block the cache is current through. -/
structure Applied where
  slot : ℕ
  blockhash : String
deriving DecidableEq, Repr

structure CacheState where
  status : Status
  store : MintStore
  applied : Applied

/-- The read rule. -/
def lookupOne (state : CacheState) (key : Pubkey) (requestSlot : ℕ) : MintLookup :=
  if state.status = .loading then .postgres .loading
  else
    match state.store.get key with
    | .immutable decimals => .found (.ofDecimals decimals)
    | .mutable entry =>
      if entry.slot > requestSlot then .postgres .newerThanRequest
      else if state.applied.slot < requestSlot then .postgres .behind
      else .found entry.state
    | .tombstone slot =>
      if slot > requestSlot then .postgres .newerThanRequest
      else if state.applied.slot < requestSlot then .postgres .behind
      else .closed
    | .missing => if state.applied.slot < requestSlot then .postgres .behind else .postgres .missing

/-- One key of a request: a mint held goes to the found ones, a closed one is left out, any other key is read
from Postgres. -/
def resolveOne (state : CacheState) (requestSlot : ℕ) (answers : HashMap Pubkey MintState × List Pubkey)
    (key : Pubkey) : HashMap Pubkey MintState × List Pubkey :=
  match lookupOne state key requestSlot with
  | .found mint => (answers.1.insert key mint, answers.2)
  | .closed => answers
  | .postgres _ => (answers.1, answers.2 ++ [key])

/-- The mints found in memory, and the keys to read from Postgres. -/
def resolve (state : CacheState) (keys : List Pubkey) (requestSlot : ℕ) (found : HashMap Pubkey MintState) :
    HashMap Pubkey MintState × List Pubkey :=
  keys.foldl (resolveOne state requestSlot) (found, [])

structure BufferedBlock where
  blockhash : String
  parentSlot : ℕ
  parentBlockhash : String
  changes : List (Pubkey × MintChange)
deriving DecidableEq, Repr

/-- Removes the first block with a hash; the last one takes its place. -/
def swapRemove (slotBlocks : List BufferedBlock) (blockhash : String) : List BufferedBlock :=
  match slotBlocks.findIdx? fun block => decide (block.blockhash = blockhash), slotBlocks.getLast? with
  | some index, some last => (slotBlocks.set index last).dropLast
  | _, _ => slotBlocks

theorem mem_of_mem_swapRemove {slotBlocks : List BufferedBlock} {blockhash : String} {block : BufferedBlock}
    (member : block ∈ swapRemove slotBlocks blockhash) : block ∈ slotBlocks := by
  rw [swapRemove] at member
  split at member
  · next index last _ isLast =>
    rcases List.mem_or_eq_of_mem_set (List.mem_of_mem_dropLast member) with kept | rfl
    · exact kept
    · exact List.mem_of_getLast? isLast
  · exact member

/-- The buffered blocks of each slot. -/
abbrev SlotBlocks := HashMap ℕ (List BufferedBlock)

namespace SlotBlocks

/-- One block for each hash of a slot. -/
def push (blocks : SlotBlocks) (slot : ℕ) (block : BufferedBlock) : SlotBlocks :=
  blocks.insert slot
    (((blocks.lookup slot).getD []).filter (fun other => decide (other.blockhash ≠ block.blockhash)) ++ [block])

def popFirst (blocks : SlotBlocks) : SlotBlocks := blocks.keys.min?.elim blocks blocks.erase

def onBlock (blocks : SlotBlocks) (slot : ℕ) (block : BufferedBlock) : SlotBlocks :=
  let pushed := push blocks slot block
  popFirst^[pushed.entries.length - maxBufferedBlocks] pushed

/-- Drops every block at or below a slot. -/
def prune (blocks : SlotBlocks) (slot : ℕ) : SlotBlocks := blocks.retain fun other _ => decide (slot < other)

def remove (blocks : SlotBlocks) (slot : ℕ) (blockhash : String) : SlotBlocks :=
  (blocks.lookup slot).elim blocks fun slotBlocks => blocks.insert slot (swapRemove slotBlocks blockhash)

/-- A property of every buffered block at its slot. -/
def All (holds : ℕ → BufferedBlock → Prop) (blocks : SlotBlocks) : Prop :=
  ∀ slot slotBlocks, blocks.lookup slot = some slotBlocks → ∀ block ∈ slotBlocks, holds slot block

section All

variable {holds : ℕ → BufferedBlock → Prop} {blocks : SlotBlocks} {slot : ℕ} {block : BufferedBlock}

theorem all_empty : All holds ∅ := by
  intro slot slotBlocks found
  rw [HashMap.lookup_empty] at found
  contradiction

theorem All.insert (all : All holds blocks) {slotBlocks : List BufferedBlock}
    (new : ∀ block ∈ slotBlocks, holds slot block) : All holds (blocks.insert slot slotBlocks) := by
  intro other others found
  rw [HashMap.lookup_insert] at found
  split at found
  · next same =>
    cases found
    exact same ▸ new
  · exact all other others found

theorem All.push (all : All holds blocks) (new : holds slot block) : All holds (push blocks slot block) := by
  refine all.insert fun entry member => ?_
  rcases List.mem_append.mp member with kept | isNew
  · have before := List.mem_of_mem_filter kept
    cases isHeld : blocks.lookup slot with
    | none =>
      rw [isHeld] at before
      contradiction
    | some held =>
      rw [isHeld] at before
      exact all slot held isHeld entry before
  · exact List.mem_singleton.mp isNew ▸ new

theorem All.popFirst (all : All holds blocks) : All holds (popFirst blocks) := by
  rw [SlotBlocks.popFirst]
  cases blocks.keys.min? with
  | none => exact all
  | some first =>
    intro other slotBlocks found
    rw [Option.elim_some, HashMap.lookup_erase] at found
    split at found
    · contradiction
    · exact all other slotBlocks found

theorem All.onBlock (all : All holds blocks) (new : holds slot block) : All holds (onBlock blocks slot block) := by
  have popped : ∀ (count : ℕ) (blocks : SlotBlocks), All holds blocks → All holds (SlotBlocks.popFirst^[count] blocks) := by
    intro count
    induction count with
    | zero => exact fun _ => id
    | succ count ih => exact fun blocks all => ih _ all.popFirst
  exact popped _ _ (all.push new)

theorem All.prune (all : All holds blocks) (slot : ℕ) : All holds (prune blocks slot) := by
  intro other slotBlocks found
  rw [SlotBlocks.prune, HashMap.lookup_retain, Option.filter_eq_some_iff] at found
  exact all other slotBlocks found.1

theorem All.remove (all : All holds blocks) (slot : ℕ) (blockhash : String) : All holds (remove blocks slot blockhash) := by
  rw [SlotBlocks.remove]
  cases isHeld : blocks.lookup slot with
  | none => exact all
  | some held => exact all.insert fun block member => all slot held isHeld block (mem_of_mem_swapRemove member)

end All

end SlotBlocks

/-- A block's parent lies below it, so a walk over parents ends. -/
structure Buffer where
  blocks : SlotBlocks
  older : SlotBlocks.All (fun slot block => block.parentSlot < slot) blocks

namespace Buffer

def new : Buffer := ⟨∅, SlotBlocks.all_empty⟩

def onBlock (buffer : Buffer) (slot : ℕ) (block : BufferedBlock) (older : block.parentSlot < slot) : Buffer :=
  ⟨buffer.blocks.onBlock slot block, buffer.older.onBlock older⟩

def prune (buffer : Buffer) (slot : ℕ) : Buffer := ⟨buffer.blocks.prune slot, buffer.older.prune slot⟩

def remove (buffer : Buffer) (slot : ℕ) (blockhash : String) : Buffer :=
  ⟨buffer.blocks.remove slot blockhash, buffer.older.remove slot blockhash⟩

/-- The first block of a slot with a hash. No hash stands for any. -/
def find (buffer : Buffer) (slot : ℕ) (blockhash : String) : Option BufferedBlock :=
  (buffer.blocks.lookup slot).bind fun slotBlocks =>
    slotBlocks.find? fun block => decide (blockhash = "" ∨ block.blockhash = blockhash)

theorem find_eq_some {buffer : Buffer} {slot : ℕ} {blockhash : String} {block : BufferedBlock}
    (found : buffer.find slot blockhash = some block) :
    (∃ slotBlocks, buffer.blocks.lookup slot = some slotBlocks ∧ block ∈ slotBlocks) ∧
      (blockhash = "" ∨ block.blockhash = blockhash) := by
  obtain ⟨slotBlocks, isHeld, isFirst⟩ := Option.bind_eq_some_iff.mp found
  exact ⟨⟨slotBlocks, isHeld, List.mem_of_find?_eq_some isFirst⟩, by simpa using List.find?_some isFirst⟩

theorem parentSlot_lt {buffer : Buffer} {slot : ℕ} {blockhash : String} {block : BufferedBlock}
    (found : buffer.find slot blockhash = some block) : block.parentSlot < slot := by
  obtain ⟨⟨slotBlocks, isHeld, member⟩, _⟩ := find_eq_some found
  exact buffer.older slot slotBlocks isHeld block member

/-- The buffered blocks from a slot back to the applied block, along the parent links. -/
def walk (buffer : Buffer) (applied : Applied) (slot : ℕ) (blockhash : String) :
    Option (List (ℕ × BufferedBlock)) :=
  match _found : buffer.find slot blockhash with
  | none => none
  | some block =>
    if block.parentSlot = applied.slot then
      if applied.blockhash = "" ∨ block.parentBlockhash = "" ∨ block.parentBlockhash = applied.blockhash then
        some [(slot, block)]
      else none
    else if block.parentSlot < applied.slot then none
    else (buffer.walk applied block.parentSlot block.parentBlockhash).map ((slot, block) :: ·)
termination_by slot
decreasing_by exact parentSlot_lt _found

end Buffer

namespace MintStore

/-- The changes of one block. -/
def applyBlock (store : MintStore) (slot : ℕ) (changes : List (Pubkey × MintChange)) : MintStore :=
  changes.foldl (fun current change => (current.apply change.1 slot change.2).1) store

/-- Rows of the table. -/
def applyRows (store : MintStore) (rows : List MintRow) : MintStore :=
  rows.foldl (fun current row => (current.applyRow row.pubkey row.slot row.state).1) store

end MintStore

/-- The rows changed after a slot. -/
def readAfter (table : HashMap Pubkey MintRow) (slot : ℕ) : List MintRow :=
  table.values.filter fun row => decide (slot < row.slot)

/-- The next page of rows, in key order. -/
def readPage (table : HashMap Pubkey MintRow) (after : Pubkey) : List MintRow :=
  (((table.keys.filter fun key => decide (after < key)).insertionSort (· ≤ ·)).take loadPage).filterMap table.lookup

/-- A block of the feed. -/
structure FeedBlock where
  slot : ℕ
  block : BufferedBlock
  older : block.parentSlot < slot
deriving DecidableEq

/-- What is left to do once the chain was applied or a block was missing. -/
inductive Todo where
  | prune (slot : ℕ)
  | request (reload : Reload)
deriving DecidableEq, Repr

/-- Where the slot syncronizer stands. -/
inductive Confirming where
  | idle
  | read (confirmed applied : Applied) (healthy : Bool)
  | decided (confirmed applied : Applied) (healthRestoredFrom : Option ℕ) (reloadPending : Bool)
  | finishing (slot : ℕ) (todo : List Todo)
deriving DecidableEq, Repr

/-- Where the background task stands. -/
inductive Loader where
  | waits
  | loads (start : ℕ) (store : MintStore) (rows : ℕ) (after : Pubkey)
  | swaps (start : ℕ) (store : MintStore)
  | sleeps
  | reloads (request : Reload)
  | covered (request : Reload) (lastDbSlot : ℕ)
  | applies (request : Reload) (lastDbSlot : ℕ) (rows : List MintRow)
  | prunes (slot : ℕ) (request : Option Reload)
  | clears (request : Reload)

structure MintApi where
  state : CacheState
  buffer : Buffer
  unhealthySince : Option ℕ
  pending : Option Reload
  confirming : Confirming
  loader : Loader
  published : ℕ

inductive ApiEvent where
  | onBlock (block : FeedBlock)
  | confirmed (slot : ℕ) (blockhash : Option String) (healthy : Bool)
  | decides
  | chains
  | finishes
  | readLastDbSlot (lastDbSlot : Option ℕ)
  | readsPage (table : HashMap Pubkey MintRow)
  | readsRows (table : HashMap Pubkey MintRow)
  | loaderActs
  | loaderFails

namespace MintApi

def start : MintApi where
  state := ⟨.loading, .default, ⟨0, ""⟩⟩
  buffer := .new
  unhealthySince := none
  pending := none
  confirming := .idle
  loader := .waits
  published := 0

/-- A pending reload widens to cover both. -/
def requestReload (api : MintApi) (request : Reload) : MintApi :=
  { api with
    pending := some (match api.pending with
      | some pending =>
        { pending with after := min pending.after request.after, target := max pending.target request.target }
      | none => request) }

/-- A confirmed slot advanced: only a live cache follows it. -/
def confirmed (api : MintApi) (slot : ℕ) (blockhash : Option String) (healthy : Bool) : MintApi :=
  { api with
    confirming :=
      if api.state.status = .loading then .finishing slot []
      else .read ⟨slot, blockhash.getD ""⟩ api.state.applied healthy }

/-- Reads and sets what the two tasks share. -/
def decides (api : MintApi) (confirmed applied : Applied) (healthy : Bool) : MintApi :=
  { api with
    unhealthySince := if healthy then none else some (api.unhealthySince.getD applied.slot)
    confirming := .decided confirmed applied (if healthy then api.unhealthySince else none) api.pending.isSome }

/-- Applies the buffered chain, or asks for a reload of what is missing. -/
def chains (api : MintApi) (confirmed applied : Applied) (healthRestoredFrom : Option ℕ) (reloadPending : Bool) :
    MintApi :=
  let restored := (healthRestoredFrom.map fun since => Todo.request ⟨since, confirmed.slot, .healthRestored⟩).toList
  if confirmed.slot > applied.slot ∧ reloadPending = false then
    match api.buffer.walk applied confirmed.slot confirmed.blockhash with
    | some chain =>
      { api with
        buffer := chain.reverse.foldl (fun buffer entry => buffer.remove entry.1 entry.2.blockhash) api.buffer
        state := { api.state with
          store := chain.reverse.foldl (fun store entry => store.applyBlock entry.1 entry.2.changes) api.state.store
          applied := confirmed }
        confirming := .finishing confirmed.slot (.prune confirmed.slot :: restored) }
    | none =>
      { api with
        confirming :=
          .finishing confirmed.slot (.request ⟨applied.slot, confirmed.slot, .blockMissing⟩ :: restored) }
  else { api with confirming := .finishing confirmed.slot restored }

def does (api : MintApi) : Todo → MintApi
  | .prune slot => { api with buffer := api.buffer.prune slot }
  | .request reload => api.requestReload reload

/-- Current through the slot the table was complete through. -/
def applies (api : MintApi) (request : Reload) (lastDbSlot : ℕ) (rows : List MintRow) : MintApi :=
  let applied := if lastDbSlot > api.state.applied.slot then ⟨lastDbSlot, ""⟩ else api.state.applied
  { api with
    state := { api.state with store := api.state.store.applyRows rows, applied }
    loader := .prunes applied.slot (some request) }

/-- The steps of the background task that read nothing. -/
def loaderActs (api : MintApi) : Option MintApi :=
  match api.loader with
  | .swaps start store => some { api with state := ⟨.live, store, ⟨start, ""⟩⟩, loader := .prunes start none }
  | .sleeps => api.pending.map fun request => { api with loader := .reloads request }
  | .applies request lastDbSlot rows => some (api.applies request lastDbSlot rows)
  | .prunes slot request =>
    some { api with buffer := api.buffer.prune slot, loader := request.elim .sleeps .clears }
  | .clears request =>
    some { api with pending := if api.pending = some request then none else api.pending, loader := .sleeps }
  | .waits | .loads _ _ _ _ | .reloads _ | .covered _ _ => none

/-- A failed read starts the load again, and leaves a reload pending. -/
def loaderFails (api : MintApi) : Option MintApi :=
  match api.loader with
  | .loads _ _ _ _ => some { api with loader := .waits }
  | .reloads _ | .covered _ _ => some { api with loader := .sleeps }
  | .waits | .swaps _ _ | .sleeps | .applies _ _ _ | .prunes _ _ | .clears _ => none

/-- The slot the table is complete through, before the table itself is read. -/
def readLastDbSlot (api : MintApi) (lastDbSlot : Option ℕ) : Option MintApi :=
  match api.loader, lastDbSlot with
  | .waits, some slot => some { api with loader := .loads slot .default 0 0 }
  | .waits, none => some api
  | .reloads request, some slot =>
    some { api with loader := if slot ≥ request.target then .covered request slot else .sleeps }
  | .reloads _, none => some { api with loader := .sleeps }
  | _, _ => none

/-- The next page, up to the empty one. An empty table is an error. -/
def readsPage (api : MintApi) (table : HashMap Pubkey MintRow) : Option MintApi :=
  match api.loader with
  | .loads start store rows after =>
    let page := readPage table after
    some { api with
      loader := match page.getLast? with
        | some last => .loads start (store.applyRows page) (rows + page.length) last.pubkey
        | none => if rows = 0 then .waits else .swaps start store }
  | _ => none

def step (api : MintApi) : ApiEvent → Option MintApi
  | .onBlock block => some { api with buffer := api.buffer.onBlock block.slot block.block block.older }
  | .confirmed slot blockhash healthy =>
    if api.confirming = .idle ∧ api.published < slot then some (api.confirmed slot blockhash healthy) else none
  | .decides =>
    match api.confirming with
    | .read confirmed applied healthy => some (api.decides confirmed applied healthy)
    | _ => none
  | .chains =>
    match api.confirming with
    | .decided confirmed applied healthRestoredFrom reloadPending =>
      some (api.chains confirmed applied healthRestoredFrom reloadPending)
    | _ => none
  | .finishes =>
    match api.confirming with
    | .finishing slot (todo :: rest) => some { api.does todo with confirming := .finishing slot rest }
    | .finishing slot [] => some { api with confirming := .idle, published := slot }
    | _ => none
  | .readLastDbSlot lastDbSlot => api.readLastDbSlot lastDbSlot
  | .readsPage table => api.readsPage table
  | .readsRows table =>
    match api.loader with
    | .covered request lastDbSlot =>
      some { api with loader := .applies request lastDbSlot (readAfter table request.after) }
    | _ => none
  | .loaderActs => api.loaderActs
  | .loaderFails => api.loaderFails

end MintApi

end Cloudbreak.Model.MintCache
