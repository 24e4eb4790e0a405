import Cloudbreak.ToMathlib.HashMap
import Cloudbreak.Model.Account

/-! # The mint store

Three maps hold what is known about every mint: the decimals of the mints that can never change, the
slot and state of the mutable ones, and the close slot of the closed ones. A key is in at most one of
the maps, and the store carries that fact, so a reader of one map needs no case for the other two.
-/

namespace Cloudbreak.Model.MintCache

open Cloudbreak.ToMathlib

/-- The two extension configs, as the plain bytes that equality compares. -/
structure MintConfigs where
  interestBearing : Option (List UInt8)
  scaledUiAmount : Option (List UInt8)
deriving DecidableEq, Repr

/-- The mint data that `jsonParsed` needs. A mint with a config has one of the extensions that keep
it mutable, so an immutable state has no config to remember. -/
structure MintState where
  decimals : UInt8
  configs : Option MintConfigs
  immutable : Bool
  plain : immutable = true → configs = none
deriving DecidableEq, Repr

/-- A state without configurations satisfies the field whether it is immutable or not. -/
theorem MintState.plain_none (immutable : Bool) : immutable = true → (none : Option MintConfigs) = none :=
  fun _ => rfl

/-- The state an immutable mint is served with: its decimals are all the store keeps of it. -/
def MintState.ofDecimals (decimals : UInt8) : MintState := ⟨decimals, none, true, fun _ => rfl⟩

theorem MintState.ofDecimals_decimals {state : MintState} (sealed : state.immutable = true) :
    MintState.ofDecimals state.decimals = state := by
  obtain ⟨decimals, configs, immutable, plain⟩ := state
  cases sealed
  cases plain rfl
  rfl

/-- One account write as the mint store sees it. -/
inductive MintChange where
  | live (state : MintState)
  | closed
deriving DecidableEq, Repr

/-- A mutable mint and the slot of its last change. -/
structure MutableMint where
  slot : ℕ
  state : MintState
deriving DecidableEq, Repr

/-- How a change altered the store. -/
inductive ChangeKind where
  | create
  | update
  | close
  | reinit
deriving DecidableEq, Repr

/-- What the store holds for one key. -/
inductive StoredMint where
  | immutable (decimals : UInt8)
  | mutable (mint : MutableMint)
  | tombstone (slot : ℕ)
  | missing
deriving DecidableEq, Repr

structure MintStore where
  immutable : HashMap Pubkey UInt8
  mutable : HashMap Pubkey MutableMint
  tombstones : HashMap Pubkey ℕ
  sealedNotMutable : ∀ key, key ∈ immutable → key ∉ mutable
  sealedNotClosed : ∀ key, key ∈ immutable → key ∉ tombstones
  mutableNotClosed : ∀ key, key ∈ mutable → key ∉ tombstones

namespace MintStore

/-- The store before the first write. -/
def default : MintStore where
  immutable := ∅
  mutable := ∅
  tombstones := ∅
  sealedNotMutable := fun _ member => absurd member (AList.notMem_empty _)
  sealedNotClosed := fun _ member => absurd member (AList.notMem_empty _)
  mutableNotClosed := fun _ member => absurd member (AList.notMem_empty _)

def get (store : MintStore) (pubkey : Pubkey) : StoredMint :=
  match store.mutable.lookup pubkey with
  | some entry => .mutable entry
  | none =>
    match store.tombstones.lookup pubkey with
    | some slot => .tombstone slot
    | none =>
      match store.immutable.lookup pubkey with
      | some decimals => .immutable decimals
      | none => .missing

/-- Moves a key into the immutable map. -/
def putImmutable (store : MintStore) (pubkey : Pubkey) (decimals : UInt8) : MintStore where
  immutable := store.immutable.insert pubkey decimals
  mutable := store.mutable.erase pubkey
  tombstones := store.tombstones.erase pubkey
  sealedNotMutable := by
    have disjoint := store.sealedNotMutable
    simp only [AList.mem_insert, AList.mem_erase]
    grind
  sealedNotClosed := by
    have disjoint := store.sealedNotClosed
    simp only [AList.mem_insert, AList.mem_erase]
    grind
  mutableNotClosed := by
    have disjoint := store.mutableNotClosed
    simp only [AList.mem_erase]
    grind

/-- Moves a key that is not immutable into the mutable map. -/
def putMutable (store : MintStore) (pubkey : Pubkey) (mint : MutableMint)
    (unsealed : pubkey ∉ store.immutable) : MintStore where
  immutable := store.immutable
  mutable := store.mutable.insert pubkey mint
  tombstones := store.tombstones.erase pubkey
  sealedNotMutable := by
    have disjoint := store.sealedNotMutable
    simp only [AList.mem_insert]
    grind
  sealedNotClosed := by
    have disjoint := store.sealedNotClosed
    simp only [AList.mem_erase]
    grind
  mutableNotClosed := by
    have disjoint := store.mutableNotClosed
    simp only [AList.mem_insert, AList.mem_erase]
    grind

/-- Moves a key that is not immutable into the tombstones. -/
def putTombstone (store : MintStore) (pubkey : Pubkey) (slot : ℕ)
    (unsealed : pubkey ∉ store.immutable) : MintStore where
  immutable := store.immutable
  mutable := store.mutable.erase pubkey
  tombstones := store.tombstones.insert pubkey slot
  sealedNotMutable := by
    have disjoint := store.sealedNotMutable
    simp only [AList.mem_erase]
    grind
  sealedNotClosed := by
    have disjoint := store.sealedNotClosed
    simp only [AList.mem_insert]
    grind
  mutableNotClosed := by
    have disjoint := store.mutableNotClosed
    simp only [AList.mem_insert, AList.mem_erase]
    grind

/-- The kind of a live write, or `none` when the store skips it. -/
def liveKind (store : MintStore) (pubkey : Pubkey) (slot : ℕ) (state : MintState) :
    Option ChangeKind :=
  match store.tombstones.lookup pubkey, store.mutable.lookup pubkey with
  | some closed, _ => if closed > slot then none else some .reinit
  | none, some entry => if entry.slot > slot ∨ entry.state = state then none else some .update
  | none, none => some .create

def applyLive (store : MintStore) (pubkey : Pubkey) (slot : ℕ) (state : MintState) :
    MintStore × Option ChangeKind :=
  if sealed : pubkey ∈ store.immutable then (store, none)
  else
    match store.liveKind pubkey slot state with
    | none => (store, none)
    | some kind =>
      if state.immutable then (store.putImmutable pubkey state.decimals, some kind)
      else (store.putMutable pubkey ⟨slot, state⟩ sealed, some kind)

/-- A block close of an unknown key is ignored (`knownOnly`), as most zero-lamport writes are not
mints. -/
def close (store : MintStore) (pubkey : Pubkey) (slot : ℕ) (knownOnly : Bool) :
    MintStore × Option ChangeKind :=
  if sealed : pubkey ∈ store.immutable then (store, none)
  else if pubkey ∈ store.tombstones then (store, none)
  else
    match store.mutable.lookup pubkey with
    | some entry =>
      if entry.slot > slot then (store, none)
      else (store.putTombstone pubkey slot sealed, some .close)
    | none =>
      if knownOnly then (store, none)
      else (store.putTombstone pubkey slot sealed, some .close)

/-- Applies one write at `slot`. -/
def apply (store : MintStore) (pubkey : Pubkey) (slot : ℕ) : MintChange → MintStore × Option ChangeKind
  | .live state => store.applyLive pubkey slot state
  | .closed => store.close pubkey slot true

/-- Applies one row of the `mints` table, whose tombstones are stored even for unknown keys. -/
def applyRow (store : MintStore) (pubkey : Pubkey) (slot : ℕ) :
    Option MintState → MintStore × Option ChangeKind
  | some state => store.applyLive pubkey slot state
  | none => store.close pubkey slot false

end MintStore

/-- A row of the `mints` table; a closed mint has no state. -/
structure MintRow where
  pubkey : Pubkey
  slot : ℕ
  state : Option MintState
deriving DecidableEq, Repr

/-- The `mints` row of a key's current state. An immutable entry has no slot and takes the one
given. -/
def MintStore.row (store : MintStore) (pubkey : Pubkey) (slot : ℕ) : Option MintRow :=
  match store.get pubkey with
  | .immutable decimals => some ⟨pubkey, slot, some (.ofDecimals decimals)⟩
  | .mutable entry => some ⟨pubkey, entry.slot, some entry.state⟩
  | .tombstone closed => some ⟨pubkey, closed, none⟩
  | .missing => none

end Cloudbreak.Model.MintCache
