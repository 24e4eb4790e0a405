import Cloudbreak.Model.MintCache.Store

/-! # One mint of the store as a state machine

Every operation of the store reads and writes a single key. What it does there is a step on the value
`get` returns, and every other key keeps its value; so a run over one mint is a fold over its stored
value, and later results never look at the three maps again.
-/

namespace Cloudbreak.Model.MintCache

open Cloudbreak.ToMathlib

namespace StoredMint

/-- The state a mint is served with. -/
def served : StoredMint → Option MintState
  | .immutable decimals => some (.ofDecimals decimals)
  | .mutable mint => some mint.state
  | .tombstone _ => none
  | .missing => none

/-- What an accepted live write leaves. -/
def written (slot : ℕ) (state : MintState) : StoredMint :=
  if state.immutable then .immutable state.decimals else .mutable ⟨slot, state⟩

def applyLive (slot : ℕ) (state : MintState) : StoredMint → StoredMint
  | .immutable decimals => .immutable decimals
  | .mutable mint =>
    if mint.slot > slot ∨ mint.state = state then .mutable mint else written slot state
  | .tombstone closed => if closed > slot then .tombstone closed else written slot state
  | .missing => written slot state

def close (slot : ℕ) (knownOnly : Bool) : StoredMint → StoredMint
  | .immutable decimals => .immutable decimals
  | .mutable mint => if mint.slot > slot then .mutable mint else .tombstone slot
  | .tombstone closed => .tombstone closed
  | .missing => if knownOnly then .missing else .tombstone slot

def apply (slot : ℕ) (held : StoredMint) : MintChange → StoredMint
  | .live state => held.applyLive slot state
  | .closed => held.close slot true

@[simp] theorem served_written (slot : ℕ) (state : MintState) :
    (written slot state).served = some state := by
  unfold written
  split
  · next sealed => exact congrArg some (MintState.ofDecimals_decimals sealed)
  · rfl

end StoredMint

namespace MintStore

theorem get_default (key : Pubkey) : default.get key = .missing := rfl

/-- The map a key is in decides what `get` returns for it, and conversely. -/
theorem get_eq_immutable {store : MintStore} {key : Pubkey} {decimals : UInt8}
    (held : store.immutable.lookup key = some decimals) : store.get key = .immutable decimals := by
  have member : key ∈ store.immutable := AList.lookup_isSome.mp (by simp [held])
  simp only [get, HashMap.lookup_of_not_mem (store.sealedNotMutable key member),
    HashMap.lookup_of_not_mem (store.sealedNotClosed key member), held]

theorem get_eq_tombstone {store : MintStore} {key : Pubkey} {slot : ℕ}
    (held : store.tombstones.lookup key = some slot) : store.get key = .tombstone slot := by
  have member : key ∈ store.tombstones := AList.lookup_isSome.mp (by simp [held])
  have absent : key ∉ store.mutable := fun other => store.mutableNotClosed key other member
  simp only [get, HashMap.lookup_of_not_mem absent, held]

theorem get_eq_mutable {store : MintStore} {key : Pubkey} {mint : MutableMint}
    (held : store.mutable.lookup key = some mint) : store.get key = .mutable mint := by
  simp only [get, held]

@[simp] theorem get_putImmutable (store : MintStore) (key other : Pubkey) (decimals : UInt8) :
    (store.putImmutable key decimals).get other =
      if other = key then .immutable decimals else store.get other := by
  by_cases same : other = key <;>
    simp only [get, putImmutable, HashMap.lookup_insert, HashMap.lookup_erase, same, if_true, if_false]

@[simp] theorem get_putMutable (store : MintStore) (key other : Pubkey) (mint : MutableMint)
    (unsealed : key ∉ store.immutable) :
    (store.putMutable key mint unsealed).get other =
      if other = key then .mutable mint else store.get other := by
  by_cases same : other = key <;>
    simp only [get, putMutable, HashMap.lookup_insert, HashMap.lookup_erase, same, if_true, if_false]

@[simp] theorem get_putTombstone (store : MintStore) (key other : Pubkey) (slot : ℕ)
    (unsealed : key ∉ store.immutable) :
    (store.putTombstone key slot unsealed).get other =
      if other = key then .tombstone slot else store.get other := by
  by_cases same : other = key <;>
    simp only [get, putTombstone, HashMap.lookup_insert, HashMap.lookup_erase, same, if_true, if_false]

/-- An operation that changes nothing is the step that keeps the key's own value. -/
theorem get_unchanged {store : MintStore} {key : Pubkey} {value : StoredMint}
    (kept : store.get key = value) (other : Pubkey) :
    store.get other = if other = key then value else store.get other := by
  split
  · next same => rw [same, kept]
  · rfl

/-- A live write that `liveKind` accepts replaces the key's value by the written one. -/
private theorem get_applyLive_accepted {store : MintStore} {key : Pubkey} {slot : ℕ}
    {state : MintState} {kind : ChangeKind} (unsealed : key ∉ store.immutable)
    (accepted : store.liveKind key slot state = some kind) (other : Pubkey) :
    (store.applyLive key slot state).1.get other =
      if other = key then StoredMint.written slot state else store.get other := by
  simp only [applyLive, dif_neg unsealed, accepted, StoredMint.written]
  split
  · exact get_putImmutable store key other state.decimals
  · exact get_putMutable store key other ⟨slot, state⟩ unsealed

private theorem get_applyLive_skipped {store : MintStore} {key : Pubkey} {slot : ℕ}
    {state : MintState} (skipped : store.liveKind key slot state = none) :
    (store.applyLive key slot state).1 = store := by
  simp only [applyLive, skipped]
  split <;> rfl

theorem get_applyLive (store : MintStore) (key other : Pubkey) (slot : ℕ) (state : MintState) :
    (store.applyLive key slot state).1.get other =
      if other = key then (store.get key).applyLive slot state else store.get other := by
  by_cases sealed : key ∈ store.immutable
  · obtain ⟨decimals, held⟩ := Option.isSome_iff_exists.mp (AList.lookup_isSome.mpr sealed)
    simp only [applyLive, dif_pos sealed]
    exact get_unchanged (by rw [get_eq_immutable held]; rfl) other
  cases kind : store.liveKind key slot state with
  | none =>
    rw [get_applyLive_skipped kind]
    refine get_unchanged ?_ other
    unfold liveKind at kind
    split at kind
    · next closed _ held =>
      rw [get_eq_tombstone held]
      simp only [ite_eq_left_iff, reduceCtorEq, imp_false, not_not] at kind
      simp only [StoredMint.applyLive, if_pos kind]
    · next entry _ held =>
      rw [get_eq_mutable held]
      simp only [ite_eq_left_iff, reduceCtorEq, imp_false, not_not] at kind
      simp only [StoredMint.applyLive, if_pos kind]
    · contradiction
  | some accepted =>
    rw [get_applyLive_accepted sealed kind]
    congr 1
    unfold liveKind at kind
    split at kind
    · next closed _ held =>
      rw [get_eq_tombstone held]
      simp only [Option.ite_none_left_eq_some] at kind
      simp only [StoredMint.applyLive, if_neg kind.1]
    · next entry _ held =>
      rw [get_eq_mutable held]
      simp only [Option.ite_none_left_eq_some] at kind
      simp only [StoredMint.applyLive, if_neg kind.1]
    · next closed held =>
      have missing : store.get key = .missing := by
        simp only [get, held, closed, HashMap.lookup_of_not_mem sealed]
      rw [missing]
      rfl

theorem get_close (store : MintStore) (key other : Pubkey) (slot : ℕ) (knownOnly : Bool) :
    (store.close key slot knownOnly).1.get other =
      if other = key then (store.get key).close slot knownOnly else store.get other := by
  by_cases sealed : key ∈ store.immutable
  · obtain ⟨decimals, held⟩ := Option.isSome_iff_exists.mp (AList.lookup_isSome.mpr sealed)
    simp only [close, dif_pos sealed]
    exact get_unchanged (by rw [get_eq_immutable held]; rfl) other
  by_cases closed : key ∈ store.tombstones
  · obtain ⟨at_, held⟩ := Option.isSome_iff_exists.mp (AList.lookup_isSome.mpr closed)
    simp only [close, dif_neg sealed, if_pos closed]
    exact get_unchanged (by rw [get_eq_tombstone held]; rfl) other
  cases entry : store.mutable.lookup key with
  | some mint =>
    simp only [close, dif_neg sealed, if_neg closed, entry, get_eq_mutable entry, StoredMint.close]
    by_cases later : mint.slot > slot
    · simp only [if_pos later]
      exact get_unchanged (get_eq_mutable entry) other
    · simp only [if_neg later, get_putTombstone]
  | none =>
    have missing : store.get key = .missing := by
      simp only [get, entry, HashMap.lookup_of_not_mem closed, HashMap.lookup_of_not_mem sealed]
    simp only [close, dif_neg sealed, if_neg closed, entry, missing, StoredMint.close]
    cases knownOnly
    · exact get_putTombstone store key other slot sealed
    · exact get_unchanged missing other

/-- A write is a step of its own key and leaves every other key alone. -/
theorem get_apply (store : MintStore) (key other : Pubkey) (slot : ℕ) (change : MintChange) :
    (store.apply key slot change).1.get other =
      if other = key then (store.get key).apply slot change else store.get other := by
  cases change with
  | live state => exact get_applyLive store key other slot state
  | closed => exact get_close store key other slot true

/-- A write that is no change leaves the store as it is. -/
theorem apply_eq_of_skipped {store : MintStore} {key : Pubkey} {slot : ℕ} {change : MintChange}
    (skipped : (store.apply key slot change).2 = none) : (store.apply key slot change).1 = store := by
  cases change with
  | live state =>
    simp only [apply, applyLive] at skipped ⊢
    split
    · rfl
    · next unsealed =>
      rw [dif_neg unsealed] at skipped
      split at skipped
      · rfl
      · split at skipped <;> contradiction
  | closed =>
    simp only [apply, close] at skipped ⊢
    split
    · rfl
    · next unsealed =>
      rw [dif_neg unsealed] at skipped
      split
      · rfl
      · next open_ =>
        rw [if_neg open_] at skipped
        split
        · next entry held =>
          simp only [held] at skipped
          split
          · rfl
          · next later =>
            rw [if_neg later] at skipped
            contradiction
        · rfl

end MintStore

/-- One write to a mint, with its slot. -/
structure MintWrite where
  slot : ℕ
  change : MintChange
deriving DecidableEq, Repr

/-- The writes to one mint, in the order they arrive. -/
def MintStore.applyAll (store : MintStore) (mint : Pubkey) (writes : List MintWrite) : MintStore :=
  writes.foldl (fun current write => (current.apply mint write.slot write.change).1) store

/-- The same writes on the stored value alone. -/
def StoredMint.applyAll (held : StoredMint) (writes : List MintWrite) : StoredMint :=
  writes.foldl (fun current write => current.apply write.slot write.change) held

theorem MintStore.get_applyAll (store : MintStore) (mint other : Pubkey) (writes : List MintWrite) :
    (store.applyAll mint writes).get other =
      if other = mint then (store.get mint).applyAll writes else store.get other := by
  induction writes generalizing store with
  | nil => exact get_unchanged rfl other
  | cons write rest ih =>
    simp only [applyAll, StoredMint.applyAll, List.foldl_cons] at ih ⊢
    rw [ih, get_apply, get_apply, if_pos rfl]
    split <;> rfl

end Cloudbreak.Model.MintCache
