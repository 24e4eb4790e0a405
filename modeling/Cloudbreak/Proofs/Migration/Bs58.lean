import Cloudbreak.Model.Migration.Bs58
import Cloudbreak.ToMathlib.Positional

/-! # What the base58 functions undo

Both functions go through one number, which forgets leading zeros. The encoder writes them back, the decoder does
not: decoding gives the bytes without their leading zeros, and encoding gives the text without its leading ones.
-/

namespace Cloudbreak.Model.Migration

open Cloudbreak.ToMathlib
open Positional (value numeral)

variable {bytes : List UInt8} {chars : List Char} {text : String}

/-! ## Digits -/

/-- The value of a character of the alphabet. -/
def charValue (c : Char) : ℕ := alphabet.idxOf c

private theorem length_alphabet : alphabet.length = 58 := rfl

private theorem digit_zero : digit 0 = ['1'] := rfl

private theorem charValue_one : charValue '1' = 0 := rfl

private theorem charValue_lt {c : Char} (member : c ∈ alphabet) : charValue c < 58 := by
  rw [← length_alphabet]
  exact List.idxOf_lt_length_of_mem member

private theorem position_eq {c : Char} (member : c ∈ alphabet) : position c = charValue c + 1 := by
  have filled : c ≠ ' ' := by
    rintro rfl
    exact absurd member (by decide +kernel)
  rw [position, if_neg filled, if_pos member, charValue]

theorem digit_charValue {c : Char} (member : c ∈ alphabet) : digit (charValue c) = [c] := by
  have within := List.idxOf_lt_length_of_mem member
  rw [digit, charValue, List.drop_eq_getElem_cons within, List.getElem_idxOf within]
  rfl

/-- A digit is the character with its value. -/
theorem digit_spec {p : ℕ} (small : p < 58) : ∃ c ∈ alphabet, charValue c = p ∧ digit p = [c] := by
  have distinct : alphabet.Nodup := by decide +kernel
  have within : p < alphabet.length := by
    rw [length_alphabet]
    exact small
  have valued : charValue alphabet[p] = p := List.Nodup.idxOf_getElem distinct p within
  refine ⟨alphabet[p], List.getElem_mem within, valued, ?_⟩
  rw [← digit_charValue (List.getElem_mem within), valued]

private theorem charValue_eq_zero {c : Char} (member : c ∈ alphabet) : charValue c = 0 ↔ c = '1' := by
  constructor
  · intro zero
    have written := digit_charValue member
    rw [zero, digit_zero] at written
    exact (List.head_eq_of_cons_eq written).symm
  · rintro rfl
    exact charValue_one

private theorem mem_flatMap_digit {digits : List ℕ} (small : ∀ p ∈ digits, p < 58) :
    (∀ c ∈ digits.flatMap digit, c ∈ alphabet) ∧ (digits.flatMap digit).map charValue = digits := by
  induction digits with
  | nil => simp
  | cons p rest ih =>
    rw [List.forall_mem_cons] at small
    obtain ⟨c, member, valued, written⟩ := digit_spec small.1
    obtain ⟨members, values⟩ := ih small.2
    rw [List.flatMap_cons, written]
    exact ⟨List.forall_mem_cons.mpr ⟨member, members⟩, by rw [List.singleton_append, List.map_cons, valued, values]⟩

/-- The text of a numeral is over the alphabet and has its digits. -/
theorem flatMap_digit_numeral (num : ℕ) :
    (∀ c ∈ (numeral 58 num).flatMap digit, c ∈ alphabet) ∧
      ((numeral 58 num).flatMap digit).map charValue = numeral 58 num :=
  mem_flatMap_digit fun _ => Positional.lt_of_mem_numeral (by decide)

private theorem flatMap_digit_charValue (members : ∀ c ∈ chars, c ∈ alphabet) :
    (chars.map charValue).flatMap digit = chars := by
  induction chars with
  | nil => rfl
  | cons c rest ih =>
    rw [List.forall_mem_cons] at members
    rw [List.map_cons, List.flatMap_cons, digit_charValue members.1, ih members.2]
    rfl

private theorem map_ofNat_toNat (bytes : List UInt8) : (bytes.map UInt8.toNat).map UInt8.ofNat = bytes := by
  rw [List.map_map]
  exact (List.map_congr_left fun byte _ => UInt8.ofNat_toNat).trans (List.map_id bytes)

/-- The digits of value zero are the ones. -/
theorem dropWhile_ones (members : ∀ c ∈ chars, c ∈ alphabet) :
    chars.dropWhile (fun c => decide (charValue c = 0)) = chars.dropWhile (· = '1') := by
  induction chars with
  | nil => rfl
  | cons c rest ih =>
    rw [List.forall_mem_cons] at members
    rw [List.dropWhile_cons, List.dropWhile_cons, ih members.2, decide_eq_decide.mpr (charValue_eq_zero members.1)]

/-! ## The functions -/

private theorem foldlM_decodeChar (encoded : String) (num : ℕ) (members : ∀ c ∈ chars, c ∈ alphabet) :
    chars.foldlM (decodeChar encoded) num =
      .ok ((chars.map charValue).foldl (fun number digit => number * 58 + digit) num) := by
  induction chars generalizing num with
  | nil => rfl
  | cons c rest ih =>
    rw [List.forall_mem_cons] at members
    have read : decodeChar encoded num c = .ok (num * 58 + charValue c) := by
      rw [decodeChar, position_eq members.1]
      exact if_neg (Nat.succ_ne_zero _)
    rw [List.foldlM_cons, read, List.map_cons, List.foldl_cons]
    exact ih _ members.2

/-- The loop of the decoder writes the bytes of its number. -/
theorem whileLoop_decodeTurn {num turns : ℕ} (enough : num < turns) :
    ∃ last, whileLoop (fun state : ℕ × List UInt8 => decide (state.1 > 0)) decodeTurn turns (num, []) = some last ∧
      last.2 = (numeral 256 num).map UInt8.ofNat := by
  obtain ⟨⟨rest, output⟩, ended, below, same⟩ := Positional.exists_whileLoop_divide (show 1 < 256 by decide)
    (fun p => [UInt8.ofNat p]) Nat.one_pos enough
  refine ⟨⟨rest, output⟩, ended, ?_⟩
  obtain rfl : rest = 0 := Nat.lt_one_iff.mp below
  rw [List.map_eq_flatMap, ← same]
  rfl

/-- The loop of the encoder and the digit after it write the digits of the number. -/
theorem whileLoop_encodeTurn {num turns : ℕ} (enough : num < turns) :
    ∃ last, whileLoop (fun state : ℕ × List Char => decide (state.1 ≥ 58)) encodeTurn turns (num, []) = some last ∧
      (if last.1 > 0 then digit last.1 ++ last.2 else last.2) = (numeral 58 num).flatMap digit := by
  obtain ⟨⟨rest, output⟩, ended, below, same⟩ := Positional.exists_whileLoop_divide (show 1 < 58 by decide) digit
    (show 0 < 58 by decide) enough
  refine ⟨⟨rest, output⟩, ended, same ▸ ?_⟩
  rcases Nat.eq_zero_or_pos rest with rfl | positive
  · rfl
  · rw [if_pos positive, Positional.numeral_of_lt (Nat.ne_of_gt positive) below, List.flatMap_singleton]

private theorem preserveLeadingZeros_eq (bytes : List UInt8) (output : List Char) :
    preserveLeadingZeros bytes output = List.replicate (bytes.takeWhile (· = 0)).length '1' ++ output := by
  induction bytes generalizing output with
  | nil => rfl
  | cons byte rest ih =>
    rw [preserveLeadingZeros]
    by_cases zero : byte = 0
    · rw [if_pos zero, ih, List.takeWhile_cons_of_pos (by simpa using zero), List.length_cons, List.replicate_succ',
        List.append_assoc, digit_zero]
    · rw [if_neg zero, List.takeWhile_cons_of_neg (by simpa using zero)]
      rfl

/-- The number of some bytes. -/
def number (bytes : List UInt8) : ℕ := value 256 (bytes.map UInt8.toNat)

/-- What the encoder writes. -/
def encoding (bytes : List UInt8) : List Char :=
  List.replicate (bytes.takeWhile (· = 0)).length '1' ++ (numeral 58 (number bytes)).flatMap digit

/-- What the decoder writes for a text over the alphabet. -/
def decoding (chars : List Char) : List UInt8 := (numeral 256 (value 58 (chars.map charValue))).map UInt8.ofNat

theorem bs58Encode_returns (bytes : List UInt8) :
    Returns (fun turns => bs58Encode turns (some bytes)) (some (String.ofList (encoding bytes))) := by
  refine ⟨number bytes + 1, fun turns enough => ?_⟩
  obtain ⟨⟨rest, output⟩, ended, same⟩ := whileLoop_encodeTurn (Nat.lt_of_succ_le enough)
  have folded : bytes.foldl (fun num b => num * 256 + b.toNat) 0 = number bytes := List.foldl_map.symm
  show bs58Encode turns (some bytes) = _
  rw [bs58Encode, folded]
  dsimp only
  rw [ended, Option.map_some]
  dsimp only
  rw [same, preserveLeadingZeros_eq, encoding]

private theorem bs58Decode_returns (members : ∀ c ∈ text.toList, c ∈ alphabet) :
    Returns (fun turns => bs58Decode turns (some text)) (.ok (decoding text.toList)) := by
  refine ⟨value 58 (text.toList.map charValue) + 1, fun turns enough => ?_⟩
  obtain ⟨last, ended, same⟩ := whileLoop_decodeTurn (Nat.lt_of_succ_le enough)
  rw [value] at ended
  show bs58Decode turns (some text) = _
  simp only [bs58Decode, foldlM_decodeChar text 0 members, ended, Option.map_some, same, decoding]

/-- The encoder ends on every input. -/
theorem bs58Encode_ends (input : Option (List UInt8)) :
    ∃ result, Returns (fun turns => bs58Encode turns input) result := by
  cases input with
  | none => exact ⟨none, .of_eq fun _ => rfl⟩
  | some bytes => exact ⟨_, bs58Encode_returns bytes⟩

/-- The decoder ends on every input, over the alphabet or not. -/
theorem bs58Decode_ends (encoded : Option String) :
    ∃ result, Returns (fun turns => bs58Decode turns encoded) result := by
  cases encoded with
  | none => exact ⟨_, .of_eq fun _ => rfl⟩
  | some text =>
    cases read : text.toList.foldlM (decodeChar text) 0 with
    | error error =>
      refine ⟨.error error, .of_eq fun turns => ?_⟩
      simp only [bs58Decode, read]
    | ok num =>
      refine ⟨.ok ((numeral 256 num).map UInt8.ofNat), num + 1, fun turns enough => ?_⟩
      obtain ⟨last, ended, same⟩ := whileLoop_decodeTurn (Nat.lt_of_succ_le enough)
      show bs58Decode turns (some text) = _
      simp only [bs58Decode, read, ended, Option.map_some, same]

/-! ## There and back -/

private theorem mem_encoding (bytes : List UInt8) : ∀ c ∈ encoding bytes, c ∈ alphabet := by
  intro c member
  rcases List.mem_append.mp member with leading | written
  · rw [List.eq_of_mem_replicate leading]
    decide +kernel
  · exact (flatMap_digit_numeral _).1 c written

/-- Decoding gives back the bytes after the leading zeros. -/
theorem decoding_encoding (bytes : List UInt8) : decoding (encoding bytes) = bytes.dropWhile (· = 0) := by
  have small : ∀ digit ∈ bytes.map UInt8.toNat, digit < 256 := List.forall_mem_map.mpr fun byte _ => byte.toNat_lt
  have zero : ((fun digit => decide (digit = 0)) ∘ UInt8.toNat) = fun byte : UInt8 => decide (byte = 0) := by
    funext byte
    exact decide_eq_decide.mpr (UInt8.toNat_inj (b := 0))
  rw [decoding, encoding, List.map_append, List.map_replicate, charValue_one,
    (flatMap_digit_numeral _).2, Positional.value_replicate_zero_append, Positional.value_numeral, number,
    Positional.numeral_value (by decide) small, List.dropWhile_map, map_ofNat_toNat, zero]

private theorem toNat_ofNat_numeral (num : ℕ) :
    ((numeral 256 num).map UInt8.ofNat).map UInt8.toNat = numeral 256 num := by
  rw [List.map_map]
  refine (List.map_congr_left fun p member => ?_).trans (List.map_id _)
  exact UInt8.toNat_ofNat_of_lt (Positional.lt_of_mem_numeral (by decide) member)

/-- What was decoded begins with no zero byte. -/
theorem takeWhile_decoding (chars : List Char) : (decoding chars).takeWhile (· = 0) = [] := by
  have leading := Positional.head?_numeral 256 (value 58 (chars.map charValue))
  rw [← toNat_ofNat_numeral, ← decoding] at leading
  cases written : decoding chars with
  | nil => rfl
  | cons byte rest =>
    rw [written, List.map_cons, List.head?_cons] at leading
    refine List.takeWhile_cons_of_neg fun zero => leading ?_
    rw [of_decide_eq_true zero]
    rfl

/-- Encoding gives back the text after the leading ones. -/
theorem encoding_decoding (members : ∀ c ∈ chars, c ∈ alphabet) :
    encoding (decoding chars) = chars.dropWhile (· = '1') := by
  have small : ∀ digit ∈ chars.map charValue, digit < 58 :=
    List.forall_mem_map.mpr fun c member => charValue_lt (members c member)
  have read : number (decoding chars) = value 58 (chars.map charValue) := by
    rw [number, decoding, toNat_ofNat_numeral, Positional.value_numeral]
  have later : ∀ c ∈ chars.dropWhile (fun c => decide (charValue c = 0)), c ∈ alphabet := fun c member =>
    members c ((List.dropWhile_sublist _).subset member)
  rw [encoding, takeWhile_decoding, read, Positional.numeral_value (by decide) small, List.dropWhile_map]
  exact (flatMap_digit_charValue later).trans (dropWhile_ones members)

private theorem dropWhile_eq_self_iff_head? {α : Type*} [DecidableEq α] (first : α) (items : List α) :
    items.dropWhile (· = first) = items ↔ items.head? ≠ some first := by
  cases items with
  | nil => simp
  | cons item rest => simp [List.dropWhile_eq_self_iff]

/-- Bytes come back exactly where none of the leading ones is zero. -/
theorem decode_encode_iff (bytes : List UInt8) :
    (∃ encoded, Returns (fun turns => bs58Encode turns (some bytes)) (some encoded) ∧
      Returns (fun turns => bs58Decode turns (some encoded)) (.ok bytes)) ↔ bytes.head? ≠ some 0 := by
  have wrote := bs58Encode_returns bytes
  have read : Returns (fun turns => bs58Decode turns (some (String.ofList (encoding bytes))))
      (.ok (bytes.dropWhile (· = 0))) := by
    have members : ∀ c ∈ (String.ofList (encoding bytes)).toList, c ∈ alphabet := by
      rw [String.toList_ofList]
      exact mem_encoding bytes
    have decoded := bs58Decode_returns members
    rwa [String.toList_ofList, decoding_encoding] at decoded
  rw [← dropWhile_eq_self_iff_head?]
  constructor
  · rintro ⟨encoded, wrote', read'⟩
    obtain rfl := Option.some.inj (wrote'.unique wrote)
    exact Except.ok.inj (read.unique read')
  · intro same
    rw [same] at read
    exact ⟨_, wrote, read⟩

/-- A text comes back exactly where it does not begin with a one. -/
theorem encode_decode_iff (members : ∀ c ∈ text.toList, c ∈ alphabet) :
    (∃ decoded, Returns (fun turns => bs58Decode turns (some text)) (.ok decoded) ∧
      Returns (fun turns => bs58Encode turns (some decoded)) (some text)) ↔ text.toList.head? ≠ some '1' := by
  have read := bs58Decode_returns members
  have wrote := bs58Encode_returns (decoding text.toList)
  rw [encoding_decoding members] at wrote
  rw [← dropWhile_eq_self_iff_head?]
  constructor
  · rintro ⟨decoded, read', wrote'⟩
    obtain rfl := Except.ok.inj (read'.unique read)
    have same := Option.some.inj (wrote.unique wrote')
    have listed := congrArg String.toList same
    rwa [String.toList_ofList] at listed
  · intro same
    rw [same, String.ofList_toList] at wrote
    exact ⟨_, read, wrote⟩

/-- Both functions end on every input, null and illegal characters included, and they undo one another exactly on
bytes that do not begin with a zero and on texts that do not begin with a one. -/
theorem bs58_inverse_iff (bytes : List UInt8) (text : String) (members : ∀ c ∈ text.toList, c ∈ alphabet) :
    ((∃ encoded, Returns (fun turns => bs58Encode turns (some bytes)) (some encoded) ∧
        Returns (fun turns => bs58Decode turns (some encoded)) (.ok bytes)) ↔ bytes.head? ≠ some 0) ∧
      ((∃ decoded, Returns (fun turns => bs58Decode turns (some text)) (.ok decoded) ∧
        Returns (fun turns => bs58Encode turns (some decoded)) (some text)) ↔ text.toList.head? ≠ some '1') ∧
      (∀ input, ∃ result, Returns (fun turns => bs58Encode turns input) result) ∧
      ∀ encoded, ∃ result, Returns (fun turns => bs58Decode turns encoded) result :=
  ⟨decode_encode_iff bytes, encode_decode_iff members, bs58Encode_ends, bs58Decode_ends⟩

/-- Three bytes and their text, both ways. -/
theorem bs58_inverse_iff_three :
    (∃ encoded, Returns (fun turns => bs58Encode turns (some [1, 0, 2])) (some encoded) ∧
        Returns (fun turns => bs58Decode turns (some encoded)) (.ok [1, 0, 2])) ∧
      ∃ decoded, Returns (fun turns => bs58Decode turns (some "LUy")) (.ok decoded) ∧
        Returns (fun turns => bs58Encode turns (some decoded)) (some "LUy") := by
  have allowed : "LUy".toList.all (fun c => decide (c ∈ alphabet)) = true := by decide +kernel
  have both := bs58_inverse_iff [1, 0, 2] "LUy" fun c member =>
    of_decide_eq_true (List.all_eq_true.mp allowed c member)
  exact ⟨both.1.mpr (by decide), both.2.1.mpr (by decide +kernel)⟩

/-- A zero byte is written as a one, which is read as no byte at all. -/
theorem bs58_not_inverse :
    ¬∀ bytes : List UInt8, ∃ encoded, Returns (fun turns => bs58Encode turns (some bytes)) (some encoded) ∧
      Returns (fun turns => bs58Decode turns (some encoded)) (.ok bytes) := by
  intro inverse
  obtain ⟨encoded, ⟨bound, wrote⟩, ⟨bound', read⟩⟩ := inverse [0]
  have one : bs58Encode (bound + 1) (some [0]) = some (some "1") := by
    rw [bs58Encode]
    rfl
  obtain rfl := Option.some.inj (Option.some.inj (one.symm.trans (wrote (bound + 1) (Nat.le_succ bound))))
  have empty : bs58Decode (bound' + 1) (some "1") = some (.ok []) := by
    rw [bs58Decode]
    rfl
  cases empty.symm.trans (read (bound' + 1) (Nat.le_succ bound'))

end Cloudbreak.Model.Migration
