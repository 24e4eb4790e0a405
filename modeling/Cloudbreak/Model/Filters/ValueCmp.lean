import Cloudbreak.Model.Account
import Cloudbreak.ToMathlib.LittleEndian

/-! # Value comparisons of account data

A request may compare a little-endian number inside the account's data with another such number, or
with a constant. An offset is a `usize` of the request, so it can be any 64-bit number; the model keeps
the additions checked. Where a function returns an `Option`, `none` is a panic: an addition that leaves
the `usize` range, or a read outside the slice.
-/

namespace Cloudbreak.Model.Filters

/-- The `usize` and `u64` of a 64-bit target. -/
abbrev U64 := Fin (2 ^ 64)

instance u64CountNeZero : NeZero (2 ^ 64 : ℕ) := ⟨by decide⟩

/-- A byte slice, which never exceeds `isize::MAX` bytes. -/
abbrev Slice := {bytes : List UInt8 // bytes.length < 2 ^ 63}

inductive ValueType
  | u8
  | u16
  | u32
  | u64
  | u128
deriving DecidableEq, Repr

/-- The number of bytes that a value of the type takes. -/
def ValueType.width : ValueType → ℕ
  | .u8 => 1
  | .u16 => 2
  | .u32 => 4
  | .u64 => 8
  | .u128 => 16

inductive Operand
  | mem (offset : U64) (valueType : ValueType)
  | constant (text : String)
deriving DecidableEq, Repr

inductive Comparator
  | eq
  | ne
  | gt
  | ge
  | lt
  | le
deriving DecidableEq, Repr

def Comparator.compare {α : Type} [LinearOrder α] (comparator : Comparator) (left right : α) : Bool :=
  match comparator with
  | .eq => left = right
  | .ne => left ≠ right
  | .gt => left > right
  | .ge => left ≥ right
  | .lt => left < right
  | .le => left ≤ right

structure ValueCmp where
  left : Operand
  comparator : Comparator
  right : Operand
deriving DecidableEq, Repr

/-- A filter of a request. The type of a byte filter belongs to the client library. -/
inductive RpcFilterType (Memcmp : Type)
  | dataSize (size : U64)
  | memcmp (memcmp : Memcmp)
  | tokenAccountState
  | valueCmp (cmp : ValueCmp)
deriving DecidableEq

/-- The unsigned integer of a byte width. -/
abbrev Unsigned (width : ℕ) := Fin (256 ^ width)

inductive WrappedValueType
  | u8 (value : Unsigned 1)
  | u16 (value : Unsigned 2)
  | u32 (value : Unsigned 4)
  | u64 (value : Unsigned 8)
  | u128 (value : Unsigned 16)
deriving DecidableEq, Repr

inductive RpcFilterError
  | invalidValueCmp
deriving DecidableEq, Repr

/-- A `usize` addition. -/
def checkedAdd (left right : ℕ) : Option ℕ := if left + right < 2 ^ 64 then some (left + right) else none

/-- `data[start..stop]`. -/
def slice (data : Slice) (start stop : ℕ) : Option (List UInt8) :=
  if start ≤ stop ∧ stop ≤ data.val.length then some ((data.val.drop start).take (stop - start)) else none

/-- `from_le_bytes` of a slice, which `try_into` turns into an array of the exact width. -/
def fromLeBytes (width : ℕ) (bytes : List UInt8) : Option (Unsigned width) :=
  if exact_width : bytes.length = width then
    some ⟨LittleEndian.ofBytes bytes, LittleEndian.ofBytes_lt_of_length exact_width⟩
  else
    none

/-- The reads of more than one byte differ in their width only. -/
def parseWide (data : Slice) (offset : U64) (width : ℕ) :
    Option (Except RpcFilterError (Unsigned width)) := do
  let last ← checkedAdd offset (width - 1)
  if last ≥ data.val.length then
    return .error .invalidValueCmp
  let stop ← checkedAdd offset width
  let bytes ← slice data offset stop
  let value ← fromLeBytes width bytes
  return .ok value

/-- The read of one byte adds nothing to the offset. -/
def parseByte (data : Slice) (offset : U64) : Option (Except RpcFilterError (Unsigned 1)) :=
  if offset.val ≥ data.val.length then
    some (.error .invalidValueCmp)
  else do
    let bytes ← slice data offset (offset.val + 1)
    let value ← fromLeBytes 1 bytes
    return .ok value

def parseMemIntoValueType (data : Slice) : Operand → Option (Except RpcFilterError WrappedValueType)
  | .mem offset .u8 => (parseByte data offset).map (Except.map WrappedValueType.u8)
  | .mem offset .u16 => (parseWide data offset 2).map (Except.map WrappedValueType.u16)
  | .mem offset .u32 => (parseWide data offset 4).map (Except.map WrappedValueType.u32)
  | .mem offset .u64 => (parseWide data offset 8).map (Except.map WrappedValueType.u64)
  | .mem offset .u128 => (parseWide data offset 16).map (Except.map WrappedValueType.u128)
  | .constant _ => some (.error .invalidValueCmp)

/-- One step of Rust's decimal parser: a digit is taken with a checked product and a checked sum. -/
def takeDigit (limit value : ℕ) (digit : Char) : Option ℕ :=
  if digit.isDigit ∧ value * 10 + (digit.toNat - '0'.toNat) < limit then
    some (value * 10 + (digit.toNat - '0'.toNat))
  else
    none

/-- One leading plus sign is skipped; a minus sign is no digit of an unsigned number. -/
def digitsOf : List Char → List Char
  | '+' :: digits => digits
  | digits => digits

/-- `parse` of a string as an unsigned number below a limit. -/
def parseUnsigned (limit : ℕ) (text : String) : Option ℕ :=
  if digitsOf text.toList = [] then none else (digitsOf text.toList).foldlM (takeDigit limit) 0

/-- `parse::<uN>` with its error mapped to the filter's. -/
def parseConstant (width : ℕ) (text : String) : Except RpcFilterError (Unsigned width) :=
  match parseUnsigned (256 ^ width) text with
  | some value => if bound : value < 256 ^ width then .ok ⟨value, bound⟩ else .error .invalidValueCmp
  | none => .error .invalidValueCmp

namespace ValueCmp

/-- Two numbers read from memory are compared when they have one width. -/
def compareMem (comparator : Comparator) :
    WrappedValueType → WrappedValueType → Except RpcFilterError Bool
  | .u8 left, .u8 right => .ok (comparator.compare left right)
  | .u16 left, .u16 right => .ok (comparator.compare left right)
  | .u32 left, .u32 right => .ok (comparator.compare left right)
  | .u64 left, .u64 right => .ok (comparator.compare left right)
  | .u128 left, .u128 right => .ok (comparator.compare left right)
  | _, _ => .error .invalidValueCmp

/-- A constant is parsed at the width of the number read from memory. -/
def compareConstant (comparator : Comparator) (text : String) :
    WrappedValueType → Except RpcFilterError Bool
  | .u8 left => (parseConstant 1 text).map (comparator.compare left)
  | .u16 left => (parseConstant 2 text).map (comparator.compare left)
  | .u32 left => (parseConstant 4 text).map (comparator.compare left)
  | .u64 left => (parseConstant 8 text).map (comparator.compare left)
  | .u128 left => (parseConstant 16 text).map (comparator.compare left)

def valuesMatch (cmp : ValueCmp) (data : Slice) : Option (Except RpcFilterError Bool) :=
  match cmp.left, cmp.right with
  | .mem offset valueType, .mem offset' valueType' => do
    match ← parseMemIntoValueType data (.mem offset valueType) with
    | .error error => return .error error
    | .ok left =>
      match ← parseMemIntoValueType data (.mem offset' valueType') with
      | .error error => return .error error
      | .ok right => return compareMem cmp.comparator left right
  | .mem offset valueType, .constant text => do
    match ← parseMemIntoValueType data (.mem offset valueType) with
    | .error error => return .error error
    | .ok left => return compareConstant cmp.comparator text left
  | .constant _, _ => some (.error .invalidValueCmp)

end ValueCmp

variable {Memcmp : Type}

/-- A filter that errors counts as no match, and `all` stops at the first filter that fails. -/
def accountMatchesValueCmps (data : Slice) : List (RpcFilterType Memcmp) → Option Bool
  | [] => some true
  | .valueCmp cmp :: filters =>
    match cmp.valuesMatch data with
    | none => none
    | some (.ok true) => accountMatchesValueCmps data filters
    | some _ => some false
  | _ :: filters => accountMatchesValueCmps data filters

end Cloudbreak.Model.Filters
