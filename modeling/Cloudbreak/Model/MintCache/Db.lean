import Cloudbreak.Model.MintCache.Indexer
import Cloudbreak.Model.Processed.ReadAccounts

/-! # Rows of the mints table

The upsert binds one array for every column, and the table gives a row back with its columns decoded. What a
mint account holds is parsed by the token library, a parameter here; both extension configs are plain structures
of a fixed size.
-/

namespace Cloudbreak.Model.MintCache

open Filters (toI64 toU64)

/-- The sizes of the two config structures. -/
structure PodSizes where
  interestBearing : ℕ
  scaledUiAmount : ℕ
deriving DecidableEq, Repr

/-- `bytemuck::try_pod_read_unaligned`, without the reason of a failure. -/
def readPod (size : ℕ) (bytes : List UInt8) : Option (List UInt8) :=
  if bytes.length = size then some bytes else none

/-! ## Columns -/

namespace MintRow

/-- A tombstone counts as mutable: only a mutable mint can close. -/
def mutable (row : MintRow) : Bool := row.state.all fun state => !state.immutable

def configs (row : MintRow) : Option (List UInt8) × Option (List UInt8) :=
  let configs := row.state.bind MintState.configs
  (configs.bind MintConfigs.interestBearing, configs.bind MintConfigs.scaledUiAmount)

end MintRow

/-- A row of the table, column by column. -/
structure PgRow where
  pubkey : List UInt8
  slot : ℤ
  decimals : Option ℤ
  mutable : Bool
  closed : Bool
  interestBearingConfig : Option (List UInt8)
  scaledUiAmountConfig : Option (List UInt8)
deriving DecidableEq, Repr

/-- The columns of some rows, one array per column, in the upsert's bind order. -/
structure Columns where
  pubkeys : List (List UInt8)
  slots : List ℤ
  decimals : List (Option ℤ)
  mutable : List Bool
  closed : List Bool
  interestBearing : List (Option (List UInt8))
  scaledUiAmount : List (Option (List UInt8))

namespace Columns

def push (columns : Columns) (row : MintRow) : Columns where
  pubkeys := columns.pubkeys ++ [Filters.IndexIdentity.programBytes row.pubkey]
  slots := columns.slots ++ [toI64 (Fin.ofNat (2 ^ 64) row.slot)]
  decimals := columns.decimals ++ [row.state.map fun state => (state.decimals.toNat : ℤ)]
  mutable := columns.mutable ++ [row.mutable]
  closed := columns.closed ++ [row.state.isNone]
  interestBearing := columns.interestBearing ++ [row.configs.1]
  scaledUiAmount := columns.scaledUiAmount ++ [row.configs.2]

def of (rows : List MintRow) : Columns := rows.foldl push ⟨[], [], [], [], [], [], []⟩

/-- `SELECT * FROM unnest` over the arrays. -/
def unnest (columns : Columns) : List PgRow :=
  (columns.pubkeys.zip (columns.slots.zip (columns.decimals.zip (columns.mutable.zip (columns.closed.zip
    (columns.interestBearing.zip columns.scaledUiAmount)))))).map
    fun (pubkey, slot, decimals, mutable, closed, interestBearing, scaledUiAmount) =>
      ⟨pubkey, slot, decimals, mutable, closed, interestBearing, scaledUiAmount⟩

end Columns

/-- The state in the columns of a live mint. An immutable state has no configs to hold; the store would drop
them from a row that has some. -/
def MintState.ofColumns (decimals : ℤ) (interestBearing scaledUiAmount : Option (List UInt8)) (mutable : Bool) :
    MintState where
  decimals := UInt8.ofNat (decimals % 2 ^ 8).toNat
  configs := if mutable && (interestBearing.isSome || scaledUiAmount.isSome) then
    some ⟨interestBearing, scaledUiAmount⟩ else none
  immutable := !mutable
  plain := fun sealed => by
    rw [Bool.not_eq_true'] at sealed
    rw [sealed]
    rfl

/-- `none` is the error of a key that is not 32 bytes long. -/
def MintRow.fromPgRow (sizes : PodSizes) (row : PgRow) : Option MintRow := do
  let pubkey ← Filters.pubkeyTryFrom row.pubkey
  let slot := (toU64 row.slot).val
  let state := row.decimals.bind fun decimals =>
    if row.closed then none
    else
      some (.ofColumns decimals (row.interestBearingConfig.bind (readPod sizes.interestBearing))
        (row.scaledUiAmountConfig.bind (readPod sizes.scaledUiAmount)) row.mutable)
  return ⟨pubkey, slot, state⟩

/-! ## Accounts -/

inductive ExtensionType
  | mintCloseAuthority
  | interestBearingConfig
  | scaledUiAmount
  | other (number : ℕ)
deriving DecidableEq, Repr

/-- A mint account as the token library unpacks it: the extension types are missing where they do not parse, and
a config that is found has its structure's size and its type in the list. -/
structure UnpackedMint (sizes : PodSizes) where
  decimals : UInt8
  interestBearing : Option (List UInt8)
  scaledUiAmount : Option (List UInt8)
  extensionTypes : Option (List ExtensionType)
  interestBearingSize : ∀ bytes ∈ interestBearing, bytes.length = sizes.interestBearing
  scaledUiAmountSize : ∀ bytes ∈ scaledUiAmount, bytes.length = sizes.scaledUiAmount
  interestBearingListed : interestBearing.isSome → ∀ types ∈ extensionTypes, .interestBearingConfig ∈ types
  scaledUiAmountListed : scaledUiAmount.isSome → ∀ types ∈ extensionTypes, .scaledUiAmount ∈ types

/-- The token library: its native mint, with fixed decimals, and the parser of a mint account. -/
structure TokenLibrary (sizes : PodSizes) where
  nativeMint : Pubkey
  nativeDecimals : UInt8
  unpack : List UInt8 → Option (UnpackedMint sizes)

/-- The extensions that can change what is read of a mint. -/
def ExtensionType.changes : ExtensionType → Bool
  | .mintCloseAuthority | .interestBearingConfig | .scaledUiAmount => true
  | .other _ => false

namespace UnpackedMint

variable {sizes : PodSizes} (mint : UnpackedMint sizes)

def immutable : Bool := mint.extensionTypes.any fun types => !types.any ExtensionType.changes

def configs : Option MintConfigs :=
  if mint.interestBearing.isSome || mint.scaledUiAmount.isSome then
    some ⟨mint.interestBearing, mint.scaledUiAmount⟩ else none

theorem configs_of_immutable (sealed : mint.immutable = true) : mint.configs = none := by
  obtain ⟨types, listed, unchanging⟩ := (Option.any_eq_true _ _).mp sealed
  rw [Bool.not_eq_true', List.any_eq_false] at unchanging
  refine if_neg fun some_ => ?_
  rcases Bool.or_eq_true_iff.mp some_ with interest | scaled
  · exact unchanging _ (mint.interestBearingListed interest types listed) rfl
  · exact unchanging _ (mint.scaledUiAmountListed scaled types listed) rfl

def state : MintState := ⟨mint.decimals, mint.configs, mint.immutable, mint.configs_of_immutable⟩

end UnpackedMint

/-- The state of the mint at a key: the native mint has fixed decimals, any other mint must unpack. -/
def MintState.fromMint {sizes : PodSizes} (library : TokenLibrary sizes) (pubkey : Pubkey) (data : List UInt8) :
    Option MintState :=
  if pubkey = library.nativeMint then some (.ofDecimals library.nativeDecimals)
  else (library.unpack data).map UnpackedMint.state

/-- Only a token program enforces the mint layout. -/
def MintState.classify (state : MintState) (owner : Pubkey) : MintState where
  decimals := state.decimals
  configs := state.configs
  immutable := state.immutable && Processed.isTokenProgram owner
  plain := fun sealed => state.plain (Bool.and_eq_true_iff.mp sealed).1

/-- What one account write means to the mint store. -/
def MintChange.parse {sizes : PodSizes} (library : TokenLibrary sizes) (pubkey owner : Pubkey) (lamports : ℕ)
    (data : List UInt8) : Option MintChange :=
  if lamports = 0 then some .closed
  else if !Processed.isTokenProgram owner then none
  else (MintState.fromMint library pubkey data).map fun state => .live (state.classify owner)

end Cloudbreak.Model.MintCache
