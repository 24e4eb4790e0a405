import Cloudbreak.Model.Filters.ValueCmp

/-! # Index identities and their stored form

An index identity is the part of a request that decides which index serves it: the program, the offsets
and lengths of the byte filters, and the data size. Its hash names the row of the pattern and both
physical indexes; the hash of the filter values tells the requests of one pattern apart.
-/

namespace Cloudbreak.Model.Filters

/-- The SPL token program, which is never indexed. -/
def tokenProgramId : Pubkey := 0x06ddf6e1d765a193d9cbe146ceeb79ac1cb485ed5f5b37913a8cf5857eff00a9

/-- What the client library tells of a byte filter; the bytes are missing when its text does not decode. -/
structure MemcmpLibrary (Memcmp : Type) where
  offset : Memcmp → U64
  bytes : Memcmp → Option Slice

/-- A digest of the hash function. -/
abbrev Digest := {bytes : List UInt8 // bytes.length = 32}

/-- The part of a request's configuration that the functions here read. -/
structure RpcProgramAccountsConfig (Memcmp : Type) where
  filters : Option (List (RpcFilterType Memcmp))

structure ParsedIndexFilter where
  offsetsLengths : List (U64 × U64)
  datasize : Option U64
deriving DecidableEq, Repr

structure IndexIdentity where
  program : Pubkey
  filter : ParsedIndexFilter
deriving DecidableEq, Repr

theorem Slice.length_lt_u64 (bytes : Slice) : bytes.val.length < 2 ^ 64 := by
  have shorter := bytes.property
  omega

/-- `bytes.len() as u64`. -/
def lenU64 (bytes : Slice) : U64 := ⟨bytes.val.length, Slice.length_lt_u64 bytes⟩

/-- The lexicographic order of pairs. -/
def PairLe (first second : U64 × U64) : Prop := toLex first ≤ toLex second

instance : DecidableRel PairLe := fun first second => inferInstanceAs (Decidable (toLex first ≤ toLex second))

/-- `Vec::dedup`: of equal neighbours one is kept. -/
def dedup : List (U64 × U64) → List (U64 × U64)
  | first :: second :: rest => if first = second then dedup (second :: rest) else first :: dedup (second :: rest)
  | short => short

namespace IndexIdentity

section Parsing

variable {Memcmp : Type} (library : MemcmpLibrary Memcmp)

/-- The loop of `parse`: a byte filter without bytes rejects the request, a later size replaces an
earlier one. -/
def parseFilters : List (RpcFilterType Memcmp) → List (U64 × U64) → Option U64 →
    Option (List (U64 × U64) × Option U64)
  | [], offsetsLengths, datasize => some (offsetsLengths, datasize)
  | .dataSize size :: filters, offsetsLengths, _ => parseFilters filters offsetsLengths (some size)
  | .memcmp memcmp :: filters, offsetsLengths, datasize =>
    match library.bytes memcmp with
    | none => none
    | some bytes => parseFilters filters (offsetsLengths ++ [(library.offset memcmp, lenU64 bytes)]) datasize
  | .tokenAccountState :: filters, offsetsLengths, datasize => parseFilters filters offsetsLengths datasize
  | .valueCmp _ :: filters, offsetsLengths, datasize => parseFilters filters offsetsLengths datasize

def parse (program : Pubkey) (config : Option (RpcProgramAccountsConfig Memcmp)) : Option IndexIdentity :=
  if program = tokenProgramId then
    none
  else do
    let config ← config
    let filters ← config.filters
    let (offsetsLengths, datasize) ← parseFilters library filters [] none
    if offsetsLengths.isEmpty && datasize.isNone then
      none
    else
      some ⟨program, dedup (offsetsLengths.insertionSort PairLe), datasize⟩

/-- The offset and the bytes of a byte filter that decodes. -/
def memcmpValue : RpcFilterType Memcmp → Option (U64 × Slice)
  | .memcmp memcmp => (library.bytes memcmp).map fun bytes => (library.offset memcmp, bytes)
  | _ => none

/-- The byte filters by offset; the sort is stable, so equal offsets keep the order of the request. -/
def sortedValues (filters : List (RpcFilterType Memcmp)) : List (U64 × Slice) :=
  (filters.filterMap (memcmpValue library)).insertionSort fun first second => first.1 ≤ second.1

/-- The bytes that `value_fingerprint` hashes. -/
def valueBytes (filters : List (RpcFilterType Memcmp)) : List UInt8 :=
  (sortedValues library filters).flatMap fun value => LittleEndian.toBytes 8 value.1 ++ value.2.val

theorem firstWord_lt (digest : Digest) : LittleEndian.ofBytes (digest.val.take 8) < 2 ^ 64 := by
  have length : (digest.val.take 8).length = 8 := by
    rw [List.length_take, digest.property]
    rfl
  simpa using LittleEndian.ofBytes_lt_of_length length

/-- `u64::from_le_bytes` of the first eight bytes of a digest. -/
def firstWord (digest : Digest) : U64 := ⟨LittleEndian.ofBytes (digest.val.take 8), firstWord_lt digest⟩

def valueFingerprint (blake3 : List UInt8 → Digest) (config : Option (RpcProgramAccountsConfig Memcmp)) :
    Option U64 := do
  let config ← config
  let filters ← config.filters
  if (sortedValues library filters).isEmpty then
    none
  else
    some (firstWord (blake3 (valueBytes library filters)))

end Parsing

def fromParts (program : Pubkey) (offsetsLengths : List (U64 × U64)) (datasize : Option U64) : IndexIdentity :=
  ⟨program, offsetsLengths, datasize⟩

/-- The 32 bytes of a key. -/
def programBytes (program : Pubkey) : List UInt8 := (LittleEndian.toBytes 32 program).reverse

def datasizeBytes : Option U64 → List UInt8
  | some size => 1 :: LittleEndian.toBytes 8 size
  | none => [0]

/-- The bytes that `pattern_id` hashes. -/
def patternBytes (identity : IndexIdentity) : List UInt8 :=
  programBytes identity.program ++
    (identity.filter.offsetsLengths.flatMap fun pair =>
      LittleEndian.toBytes 8 pair.1 ++ LittleEndian.toBytes 8 pair.2) ++
    datasizeBytes identity.filter.datasize

def hexDigit (value : ℕ) : Char := "0123456789abcdef".toList.getD value '0'

def toHex (bytes : List UInt8) : List Char :=
  bytes.flatMap fun byte => [hexDigit (byte.toNat / 16), hexDigit (byte.toNat % 16)]

def patternIdHexLen : ℕ := 16

def patternId (blake3 : List UInt8 → Digest) (identity : IndexIdentity) : String :=
  String.ofList ((toHex (blake3 identity.patternBytes).val).take patternIdHexLen)

def pgIndexName (blake3 : List UInt8 → Digest) (identity : IndexIdentity) (table : String) : String :=
  "idx_" ++ table ++ "_" ++ identity.patternId blake3

end IndexIdentity

/-! ## Rows -/

/-- A JSON value; a number is stored as an unsigned, a negative or a floating one. -/
inductive Json
  | null
  | bool (value : Bool)
  | posInt (value : U64)
  | negInt (value : ℤ)
  | float (bits : U64)
  | string (text : String)
  | array (items : List Json)
  | object (fields : List (String × Json))

def Json.asArray : Json → Option (List Json)
  | .array items => some items
  | _ => none

def Json.asU64 : Json → Option U64
  | .posInt value => some value
  | _ => none

def offsetsToJson (offsetsLengths : List (U64 × U64)) : Json :=
  .array (offsetsLengths.map fun pair => .array [.posInt pair.1, .posInt pair.2])

def pairFromJson (pair : Json) : Option (U64 × U64) := do
  let items ← pair.asArray
  let offset ← (← items[0]?).asU64
  let length ← (← items[1]?).asU64
  return (offset, length)

/-- Malformed entries are skipped. -/
def offsetsFromJson (value : Json) : List (U64 × U64) :=
  match value.asArray with
  | none => []
  | some items => items.filterMap pairFromJson

/-- `size as i64`. -/
def toI64 (value : U64) : ℤ := if value.val < 2 ^ 63 then value.val else value.val - 2 ^ 64

theorem emod_u64_lt (value : ℤ) : (value % 2 ^ 64).toNat < 2 ^ 64 := by omega

/-- `size as u64`. -/
def toU64 (value : ℤ) : U64 := ⟨(value % 2 ^ 64).toNat, emod_u64_lt value⟩

/-- The columns of `index_patterns` that hold an identity, as `record_demand` inserts them. -/
structure PatternColumns where
  patternId : String
  program : List UInt8
  offsetsLengths : Json
  datasize : Option ℤ

def IndexIdentity.toColumns (blake3 : List UInt8 → Digest) (identity : IndexIdentity) : PatternColumns :=
  { patternId := identity.patternId blake3
    program := IndexIdentity.programBytes identity.program
    offsetsLengths := offsetsToJson identity.filter.offsetsLengths
    datasize := identity.filter.datasize.map toI64 }

/-- The columns read back by `row_to_pattern`. -/
structure PatternRow where
  patternId : String
  program : List UInt8
  offsetsLengths : List (U64 × U64)
  datasize : Option ℤ

def rowToPattern (columns : PatternColumns) : PatternRow :=
  { patternId := columns.patternId
    program := columns.program
    offsetsLengths := offsetsFromJson columns.offsetsLengths
    datasize := columns.datasize }

theorem pubkeyBytes_lt {bytes : List UInt8} (exact_width : bytes.length = 32) :
    LittleEndian.ofBytes bytes.reverse < 2 ^ 256 := by
  have bound := LittleEndian.ofBytes_lt_of_length (bytes.length_reverse.trans exact_width)
  simpa using bound

/-- `Pubkey::try_from` of a slice. -/
def pubkeyTryFrom (bytes : List UInt8) : Option Pubkey :=
  if exact_width : bytes.length = 32 then
    some ⟨LittleEndian.ofBytes bytes.reverse, pubkeyBytes_lt exact_width⟩
  else
    none

/-- `none` is the error of a row with invalid program bytes. -/
def PatternRow.identity (row : PatternRow) : Option IndexIdentity := do
  let program ← pubkeyTryFrom row.program
  return IndexIdentity.fromParts program row.offsetsLengths (row.datasize.map toU64)

end Cloudbreak.Model.Filters
