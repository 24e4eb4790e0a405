import Cloudbreak.ToMathlib.WhileLoop

/-! # The base58 functions of the database

The two PL/pgSQL functions that a migration creates. Their numbers are `numeric`, exact integers here. A `WHILE`
loop is run with a bound on its turns, and a function has no result where the bound does not suffice.
-/

namespace Cloudbreak.Model.Migration

open Cloudbreak.ToMathlib

def alphabet : List Char := "123456789ABCDEFGHJKLMNPQRSTUVWXYZabcdefghijkmnopqrstuvwxyz".toList

/-- An error of a function: a loop bound that is null, or a message that the function raises. -/
inductive PlError
  | nullUpperBound
  | raised (message : String)
deriving DecidableEq, Repr

/-- `position(c IN alphabet)`, from one on, and zero for none. A blank `char(1)` is searched as the empty string,
which every string starts with. -/
def position (c : Char) : ℕ := if c = ' ' then 1 else if c ∈ alphabet then alphabet.idxOf c + 1 else 0

/-- `substring(alphabet FROM p + 1 FOR 1)`. -/
def digit (p : ℕ) : List Char := (alphabet.drop p).take 1

/-- One character of the encoded text. -/
def decodeChar (encoded : String) (num : ℕ) (c : Char) : Except PlError ℕ :=
  let p := position c
  if p = 0 then .error (.raised s!"Illegal base58 character '{c}' in '{encoded}'") else .ok (num * 58 + (p - 1))

/-- One turn of the loop over the number; two hex digits are decoded to one byte. -/
def decodeTurn (state : ℕ × List UInt8) : ℕ × List UInt8 :=
  let (num, output) := state
  let p := num % 256
  ((num - p) / 256, [UInt8.ofNat p] ++ output)

def bs58Decode (turns : ℕ) (encoded : Option String) : Option (Except PlError (List UInt8)) :=
  match encoded with
  | none => some (.error .nullUpperBound)
  | some encoded =>
    match encoded.toList.foldlM (decodeChar encoded) 0 with
    | .error error => some (.error error)
    | .ok num => (whileLoop (fun state => decide (state.1 > 0)) decodeTurn turns (num, [])).map fun state => .ok state.2

def encodeTurn (state : ℕ × List Char) : ℕ × List Char :=
  let (num, output) := state
  let p := num % 58
  ((num - p) / 58, digit p ++ output)

/-- The last loop: one character for every zero byte before the first other one. -/
def preserveLeadingZeros : List UInt8 → List Char → List Char
  | [], output => output
  | byte :: rest, output => if byte = 0 then preserveLeadingZeros rest (digit 0 ++ output) else output

def bs58Encode (turns : ℕ) (input : Option (List UInt8)) : Option (Option String) :=
  match input with
  | none => some none
  | some input =>
    let num := input.foldl (fun num b => num * 256 + b.toNat) 0
    (whileLoop (fun state => decide (state.1 ≥ 58)) encodeTurn turns (num, [])).map fun (num, output) =>
      let output := if num > 0 then digit num ++ output else output
      some (String.ofList (preserveLeadingZeros input output))

end Cloudbreak.Model.Migration
