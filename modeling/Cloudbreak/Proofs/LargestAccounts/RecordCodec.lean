import Cloudbreak.Model.LargestAccounts.Record
import Cloudbreak.Proofs.Filters.PatternId

/-! # A record decodes to what was encoded

Decoding undoes encoding on amounts of 64 bits, and only a whole number of entries decodes.
-/

namespace Cloudbreak.Model.LargestAccounts

open Filters (pubkeyTryFrom pubkeyTryFrom_programBytes)
open Filters.IndexIdentity (programBytes length_programBytes)

variable {rows : List (Pubkey × ℕ)} {row : Pubkey × ℕ} {bytes chunk : List UInt8}

private theorem length_encodeEntry (row : Pubkey × ℕ) : (encodeEntry row).length = recordEntrySize := by
  rw [encodeEntry, List.length_append, length_programBytes, LittleEndian.length_toBytes]
  rfl

private theorem length_encodeRecord (rows : List (Pubkey × ℕ)) :
    (encodeRecord rows).length = rows.length * recordEntrySize := by
  induction rows with
  | nil => rfl
  | cons row rest ih =>
    rw [encodeRecord, List.flatMap_cons, List.length_append, length_encodeEntry]
    rw [encodeRecord] at ih
    rw [ih, List.length_cons, Nat.succ_mul, Nat.add_comm]

/-! ## One entry -/

private theorem toBytes_ofBytes (bytes : List UInt8) :
    LittleEndian.toBytes bytes.length (LittleEndian.ofBytes bytes) = bytes := by
  induction bytes with
  | nil => rfl
  | cons byte rest ih =>
    have small := byte.toNat_lt
    rw [List.length_cons, LittleEndian.ofBytes, LittleEndian.toBytes]
    congr 1
    · rw [Nat.add_mul_mod_self_left, Nat.mod_eq_of_lt small, UInt8.ofNat_toNat]
    · rw [Nat.add_mul_div_left _ _ (by decide), Nat.div_eq_of_lt small, Nat.zero_add, ih]

private theorem programBytes_of_tryFrom {pubkey : Pubkey} (parsed : pubkeyTryFrom bytes = some pubkey) :
    programBytes pubkey = bytes := by
  rw [pubkeyTryFrom] at parsed
  split at parsed
  · next width =>
    cases parsed
    have whole := toBytes_ofBytes bytes.reverse
    rw [List.length_reverse, width] at whole
    rw [programBytes, whole, List.reverse_reverse]
  · contradiction

/-- An entry is decoded exactly where it was encoded from an amount of 64 bits. -/
theorem decodeEntry_eq_some : decodeEntry chunk = some row ↔ row.2 < 2 ^ 64 ∧ encodeEntry row = chunk := by
  constructor
  · intro decoded
    obtain ⟨pubkey, parsed, rest⟩ := Option.bind_eq_some_iff.mp decoded
    dsimp only at rest
    split at rest
    · next width =>
      cases rest
      refine ⟨by simpa using LittleEndian.ofBytes_lt_of_length width, ?_⟩
      have amount := toBytes_ofBytes (chunk.drop 32)
      rw [width] at amount
      rw [encodeEntry, programBytes_of_tryFrom parsed, amount, List.take_append_drop]
    · contradiction
  · rintro ⟨bound, rfl⟩
    have key : (encodeEntry row).take 32 = programBytes row.1 := by
      rw [encodeEntry, ← length_programBytes row.1, List.take_left]
    have amount : (encodeEntry row).drop 32 = LittleEndian.toBytes 8 row.2 := by
      rw [encodeEntry, ← length_programBytes row.1, List.drop_left]
    rw [decodeEntry, key, pubkeyTryFrom_programBytes, Option.bind_eq_bind, Option.bind_some]
    dsimp only
    rw [amount, if_pos (LittleEndian.length_toBytes 8 row.2), LittleEndian.ofBytes_toBytes (by simpa using bound)]

/-! ## The chunks -/

private theorem chunksExact_append {size : ℕ} (positive : 0 < size) (width : chunk.length = size) (bytes : List UInt8) :
    chunksExact size (chunk ++ bytes) = chunk :: chunksExact size bytes := by
  have count : (chunk ++ bytes).length / size = bytes.length / size + 1 := by
    rw [List.length_append, width, Nat.add_comm, Nat.add_div_right _ positive]
  rw [chunksExact, count, List.range_succ_eq_map, List.map_cons, List.map_map]
  congr 1
  · rw [Nat.zero_mul, List.drop_zero, ← width, List.take_left]
  · refine List.map_congr_left fun i _ => ?_
    rw [Function.comp_apply, Nat.succ_mul, Nat.add_comm, ← width, ← List.drop_drop, List.drop_left]

private theorem encodeRecord_eq_nil : encodeRecord rows = [] ↔ rows = [] := by
  constructor
  · intro empty
    have size := length_encodeRecord rows
    rw [empty, List.length_nil] at size
    exact List.length_eq_zero_iff.mp ((Nat.mul_eq_zero.mp size.symm).resolve_right (by decide))
  · rintro rfl
    rfl

/-- Decoding the chunks of whole entries, by induction on their number. -/
theorem mapM_chunks_eq_some (count : ℕ) : ∀ {bytes : List UInt8} {rows : List (Pubkey × ℕ)},
    bytes.length = count * recordEntrySize → ((chunksExact recordEntrySize bytes).mapM decodeEntry = some rows ↔
      (∀ row ∈ rows, row.2 < 2 ^ 64) ∧ encodeRecord rows = bytes) := by
  induction count with
  | zero =>
    intro bytes rows size
    obtain rfl : bytes = [] := List.length_eq_zero_iff.mp (size.trans (Nat.zero_mul _))
    rw [encodeRecord_eq_nil, show chunksExact recordEntrySize [] = [] from rfl, List.mapM_nil]
    constructor
    · intro same
      cases same
      exact ⟨fun row member => absurd member List.not_mem_nil, rfl⟩
    · rintro ⟨-, rfl⟩
      rfl
  | succ count ih =>
    intro bytes rows size
    have width : (bytes.take recordEntrySize).length = recordEntrySize := by
      rw [List.length_take, size, Nat.succ_mul]
      omega
    have restSize : (bytes.drop recordEntrySize).length = count * recordEntrySize := by
      rw [List.length_drop, size, Nat.succ_mul]
      omega
    have chunks := chunksExact_append (show 0 < recordEntrySize by decide) width (bytes.drop recordEntrySize)
    rw [List.take_append_drop] at chunks
    rw [chunks, List.mapM_cons, Option.bind_eq_bind, Option.bind_eq_some_iff]
    constructor
    · rintro ⟨row, first, tail⟩
      obtain ⟨rest, decoded, same⟩ := Option.bind_eq_some_iff.mp tail
      cases same
      obtain ⟨bound, entry⟩ := decodeEntry_eq_some.mp first
      obtain ⟨bounds, entries⟩ := (ih restSize).mp decoded
      refine ⟨List.forall_mem_cons.mpr ⟨bound, bounds⟩, ?_⟩
      rw [encodeRecord, List.flatMap_cons, entry, ← encodeRecord, entries, List.take_append_drop]
    · rintro ⟨bounds, encoded⟩
      cases rows with
      | nil =>
        rw [← encoded] at size
        simp [encodeRecord, recordEntrySize] at size
      | cons row rest =>
        rw [encodeRecord, List.flatMap_cons] at encoded
        have parts := encoded.trans (List.take_append_drop recordEntrySize bytes).symm
        obtain ⟨entry, entries⟩ := List.append_inj parts ((length_encodeEntry row).trans width.symm)
        obtain ⟨bound, restBounds⟩ := List.forall_mem_cons.mp bounds
        refine ⟨row, decodeEntry_eq_some.mpr ⟨bound, entry⟩, Option.bind_eq_some_iff.mpr ⟨rest, ?_, rfl⟩⟩
        exact (ih restSize).mpr ⟨restBounds, entries⟩

/-- Decoding accepts the encodings of amounts of 64 bits and nothing else. -/
theorem decodeRecord_eq_some : decodeRecord bytes = some rows ↔
    (∀ row ∈ rows, row.2 < 2 ^ 64) ∧ encodeRecord rows = bytes := by
  unfold decodeRecord
  by_cases whole : bytes.length % recordEntrySize = 0
  · rw [if_neg (not_not.mpr whole)]
    exact mapM_chunks_eq_some (bytes.length / recordEntrySize) (Nat.div_mul_cancel (Nat.dvd_of_mod_eq_zero whole)).symm
  · rw [if_pos whole]
    refine ⟨fun none => absurd none (Option.some_ne_none rows).symm, fun ⟨_, encoded⟩ => absurd ?_ whole⟩
    rw [← encoded, length_encodeRecord, Nat.mul_mod_left]

/-! ## Reads of the stored bytes -/

private theorem argmax_map {α β : Type} (f : α → β) (slot : β → ℕ) (items : List α) :
    (items.map f).argmax slot = (items.argmax fun item => slot (f item)).map f := by
  induction items using List.reverseRecOn with
  | nil => rfl
  | append_singleton front last ih =>
    rw [List.map_append, List.map_singleton, List.argmax_concat, List.argmax_concat, ih]
    cases front.argmax fun item => slot (f item) with
    | none => rfl
    | some best =>
      dsimp only [Option.map_some]
      split <;> rfl

/-- A record decodes to its rows and to nothing else, no other bytes decode, and a read of the stored bytes is a read
of the rows that were persisted: it never finds a corrupt record. -/
theorem stored_records_read_back (table : LargestAccountsTable)
    (amounts : ∀ row ∈ table, ∀ entry ∈ row.rows, entry.2 < 2 ^ 64) (mint : Pubkey) (maxSlot : ℕ) :
    (∀ bytes rows, decodeRecord bytes = some rows ↔ (∀ row ∈ rows, row.2 < 2 ^ 64) ∧ encodeRecord rows = bytes) ∧
      fetchStored (table.map MintRecord.stored) mint maxSlot = .ok (table.fetchRecord mint maxSlot) := by
  refine ⟨fun bytes rows => decodeRecord_eq_some, ?_⟩
  have newest : ((table.map MintRecord.stored).filter fun row => row.mint = mint ∧ row.slot ≤ maxSlot).argmax
      StoredRecord.slot = ((table.filter fun row => row.mint = mint ∧ row.slot ≤ maxSlot).argmax MintRecord.slot).map
        MintRecord.stored := by
    rw [List.filter_map, argmax_map]
    rfl
  rw [fetchStored, newest, LargestAccountsTable.fetchRecord]
  cases found : (table.filter fun row => row.mint = mint ∧ row.slot ≤ maxSlot).argmax MintRecord.slot with
  | none => rfl
  | some row =>
    have member : row ∈ table := List.mem_of_mem_filter (List.argmax_mem found)
    have decoded : decodeRecord row.stored.record = some row.rows := decodeRecord_eq_some.mpr ⟨amounts row member, rfl⟩
    dsimp only [Option.map_some]
    rw [decoded]
    rfl

theorem two_records_read_back :
    fetchStored ([⟨7, 5, [(1, 100), (2, 50)]⟩, ⟨7, 9, [(2, 2 ^ 64 - 1)]⟩].map MintRecord.stored) 7 8 =
      .ok (some [(1, 100), (2, 50)]) := by
  refine (stored_records_read_back _ (by decide) 7 8).2.trans ?_
  exact congrArg Except.ok (by decide +kernel)

end Cloudbreak.Model.LargestAccounts
