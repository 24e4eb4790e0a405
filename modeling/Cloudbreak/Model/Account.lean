import Mathlib

/-! # Accounts as the indexer receives them

A public key is the big-endian number of its 32 bytes, so the order of the numbers is the byte order
that the source compares keys by. Slots and lamports are natural numbers; a definition whose result
depends on the width of the machine integer states the cast.
-/

namespace Cloudbreak.Model

/-- A 32-byte public key, read as a big-endian number. -/
abbrev Pubkey := Fin (2 ^ 256)

instance pubkeyCountNeZero : NeZero (2 ^ 256 : ℕ) := ⟨by decide⟩

/-- The system program, which owns plain wallets and every closed account. -/
def systemProgramId : Pubkey := 0

/-- One account write of a block. -/
structure AccountInfo where
  pubkey : Pubkey
  owner : Pubkey
  lamports : ℕ
  data : List UInt8
deriving DecidableEq, Repr

end Cloudbreak.Model
