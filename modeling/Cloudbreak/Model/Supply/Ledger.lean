import Cloudbreak.ToMathlib.Run
import Cloudbreak.Proofs.NonCirculating.Held
import Cloudbreak.Model.Supply.Indexer

/-! # What the supply total is meant to be

The true supply is the sum of the newest balances. The newest version of an account is that of its
highest-slot write, or its startup balance when it was never written; neither mentions the trackers. The
sum ranges over all keys and is a specification, not a computation.
-/

namespace Cloudbreak.Model.Supply

open NonCirculating (Shared Version versionAt stakeProgramId clockSysvarId)
open Indexer (Event)

/-- The newest known version of each account. -/
abbrev Ledger := Pubkey → Option Version

/-- The later of two versions; the one already known keeps a tie. -/
def newer (known : Option Version) (version : Version) : Option Version :=
  match known with
  | none => some version
  | some old => if old.slot < version.slot then some version else some old

/-- The ledger once a block was delivered. -/
def Ledger.record (ledger : Ledger) (slot : ℕ) (accounts : List AccountInfo) : Ledger := fun key =>
  match accounts.find? fun account => account.pubkey = key with
  | none => ledger key
  | some account => newer (ledger key) (versionAt slot account)

/-- The ledger of the blocks delivered so far, whether or not their rows were stored. -/
def delivered (events : List Event) : Ledger :=
  events.foldl
    (fun ledger event =>
      match event with
      | .block slot _ accounts _ => ledger.record slot accounts
      | _ => ledger)
    fun _ => none

/-- The slots of the blocks delivered so far. -/
def blockSlots (events : List Event) : List ℕ :=
  events.filterMap fun event =>
    match event with
    | .block slot _ _ _ => some slot
    | _ => none

/-- The accounts written by the blocks delivered so far. -/
def writtenKeys (events : List Event) : List Pubkey :=
  events.flatMap fun event =>
    match event with
    | .block _ _ accounts _ => accounts.map AccountInfo.pubkey
    | _ => []

/-- The snapshot accounts seeded so far. -/
def seeded (events : List Event) : List (ℕ × AccountInfo) :=
  events.filterMap fun event =>
    match event with
    | .seed slot account => some (slot, account)
    | _ => none

/-- The balances at the startup slot: at most one version of each account, none of them empty. The Clock
sysvar is among them under an owner of its own. -/
structure Startup where
  slot : ℕ
  accounts : List (ℕ × AccountInfo)
  started : 0 < slot
  distinct : (accounts.map fun account => account.2.pubkey).Nodup
  atOrBelow : ∀ account ∈ accounts, account.1 ≤ slot
  nonempty : ∀ account ∈ accounts, account.2.lamports ≠ 0
  clockOwner : ∀ account ∈ accounts, account.2.pubkey = clockSysvarId → account.2.owner ≠ stakeProgramId

namespace Startup

def ledgerOf (accounts : List (ℕ × AccountInfo)) : Ledger := fun key =>
  (accounts.find? fun account => account.2.pubkey = key).map fun account => versionAt account.1 account.2

def ledger (startup : Startup) : Ledger := ledgerOf startup.accounts

/-- The capitalization of the startup slot, as its 64-bit field holds it. -/
def capitalization (startup : Startup) : ℕ :=
  (startup.accounts.map fun account => account.2.lamports).sum % 2 ^ 64

end Startup

/-- The newer of a startup version and a delivered one; a delivered one keeps a tie. -/
def newestOf (atStartup delivered : Option Version) : Option Version :=
  match atStartup, delivered with
  | none, version => version
  | some version, none => some version
  | some first, some second => if first.slot ≤ second.slot then some second else some first

/-- The newest version of each account: its highest-slot write, or its startup balance. -/
def newest (startup : Startup) (events : List Event) : Ledger := fun key =>
  newestOf (startup.ledger key) (delivered events key)

/-- The snapshot and the blocks agree: every account's newest write at or below the startup slot is the
version the snapshot has, or a close of an account that the snapshot does not have. -/
def Settled (startup : Startup) (events : List Event) : Prop :=
  ∀ key ∈ writtenKeys events, ∀ version ∈ delivered events key, version.slot ≤ startup.slot →
    startup.ledger key = some version ∨ startup.ledger key = none ∧ version.lamports = 0

/-- The true supply after the delivered blocks. -/
def trueSupply (startup : Startup) (events : List Event) : ℕ :=
  ∑ key, ((newest startup events key).elim 0 Version.lamports)

end Cloudbreak.Model.Supply
