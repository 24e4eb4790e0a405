import Cloudbreak.Model.NonCirculating.Tracker

/-! # The two account layouts

The Clock sysvar and the stake account as their library decoder reads them: fixed-width little-endian
fields one after another, and a four-byte tag for the stake account's state.
-/

namespace Cloudbreak.Model.NonCirculating

/-- The little-endian number of `width` bytes at an offset. -/
def readLe (data : List UInt8) (offset width : ℕ) : Option ℕ :=
  let bytes := (data.drop offset).take width
  if bytes.length = width then some (bytes.foldr (fun byte rest => byte.toNat + 256 * rest) 0) else none

/-- A signed 64-bit number at an offset. -/
def readI64 (data : List UInt8) (offset : ℕ) : Option ℤ :=
  (readLe data offset 8).map fun number => if number < 2 ^ 63 then number else number - 2 ^ 64

/-- A public key at an offset; its bytes are big-endian. -/
def readPubkey (data : List UInt8) (offset : ℕ) : Option Pubkey :=
  let bytes := (data.drop offset).take 32
  if bytes.length = 32 then some (Fin.ofNat _ (bytes.foldl (fun number byte => 256 * number + byte.toNat) 0))
  else none

/-- Slot, epoch start, epoch, leader schedule epoch, timestamp. -/
def decodeClock (data : List UInt8) : Option BlockClock := do
  return ⟨← readLe data 0 8, ← readLe data 16 8, ← readI64 data 32⟩

/-- The meta of an `Initialized` or `Stake` account: the reserve, the staker, the withdrawer, the lockup. -/
def decodeStake (data : List UInt8) : Option StakeMeta := do
  let tag ← readLe data 0 4
  let _ ← readLe data 4 8
  let parsed : StakeMeta := ⟨← readI64 data 76, ← readLe data 84 8, ← readPubkey data 44⟩
  if (tag = 1 ∧ data.length ≥ 124) ∨ (tag = 2 ∧ data.length ≥ 197) then some parsed else none

def encodeLe (number width : ℕ) : List UInt8 := (List.range width).map fun i => UInt8.ofNat (number / 256 ^ i)

def encodeClock (clock : BlockClock) : List UInt8 :=
  encodeLe clock.slot 8 ++ encodeLe 0 8 ++ encodeLe clock.epoch 8 ++ encodeLe clock.epoch 8 ++
    encodeLe (clock.unixTimestamp % 2 ^ 64).toNat 8

/-- An `Initialized` stake account with the zero withdrawer. -/
def encodeInitialized (unixTimestamp : ℤ) (epoch : ℕ) : List UInt8 :=
  encodeLe 1 4 ++ encodeLe 0 8 ++ encodeLe 0 32 ++ encodeLe 0 32 ++
    encodeLe (unixTimestamp % 2 ^ 64).toNat 8 ++ encodeLe epoch 8 ++ encodeLe 0 32

/-- The tracker's configuration with these layouts and one listed account of each kind. -/
def Shared.ofLayout (pinned withdrawAuthorities : Finset Pubkey) (clockNotPinned : clockSysvarId ∉ pinned) : Shared where
  pinned := pinned
  withdrawAuthorities := withdrawAuthorities
  deserializeClock := decodeClock
  deserializeStake := decodeStake
  clockNotPinned := clockNotPinned

example : decodeClock (encodeClock ⟨10, 5, 1000⟩) = some ⟨10, 5, 1000⟩ := by decide

example : decodeStake (encodeInitialized (-1) 9) = some ⟨-1, 9, 0⟩ := by decide +kernel

end Cloudbreak.Model.NonCirculating
