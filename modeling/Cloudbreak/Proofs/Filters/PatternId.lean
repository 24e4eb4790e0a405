import Cloudbreak.Model.Filters.IndexIdentity

/-! # Pattern ids

The hashed bytes carry no length, yet they determine the identity: all pairs take sixteen bytes, so the
length modulo sixteen shows whether a size follows. A stored row keeps the pairs as JSON numbers and the
size as a signed column, and both come back as they were written.
-/

namespace Cloudbreak.Model.Filters

namespace IndexIdentity

/-! ## The hashed bytes -/

theorem length_programBytes (program : Pubkey) : (programBytes program).length = 32 := by
  rw [programBytes, List.length_reverse, LittleEndian.length_toBytes]

theorem pubkey_lt (program : Pubkey) : program.val < 256 ^ 32 := by simp

private theorem programBytes_injective {first second : Pubkey} (same : programBytes first = programBytes second) :
    first = second := by
  have bytes := List.reverse_injective same
  exact Fin.ext (LittleEndian.toBytes_injective (pubkey_lt first) (pubkey_lt second) bytes)

theorem u64Bytes_injective {first second : U64}
    (same : LittleEndian.toBytes 8 first.val = LittleEndian.toBytes 8 second.val) : first = second := by
  have bound (value : U64) : value.val < 256 ^ 8 := by simp
  exact Fin.ext (LittleEndian.toBytes_injective (bound first) (bound second) same)

def pairBytes (pair : U64 × U64) : List UInt8 :=
  LittleEndian.toBytes 8 pair.1 ++ LittleEndian.toBytes 8 pair.2

theorem length_pairBytes (pair : U64 × U64) : (pairBytes pair).length = 16 := by
  simp [pairBytes]

private theorem pairBytes_injective {first second : U64 × U64} (same : pairBytes first = pairBytes second) :
    first = second := by
  obtain ⟨offsets, lengths⟩ := List.append_inj same (by simp)
  exact Prod.ext (u64Bytes_injective offsets) (u64Bytes_injective lengths)

theorem length_pairs (pairs : List (U64 × U64)) : (pairs.flatMap pairBytes).length = 16 * pairs.length := by
  induction pairs with
  | nil => rfl
  | cons pair pairs ih =>
    rw [List.flatMap_cons, List.length_append, length_pairBytes, ih, List.length_cons]
    omega

theorem length_datasizeBytes (datasize : Option U64) :
    (datasizeBytes datasize).length = if datasize.isSome then 9 else 1 := by
  cases datasize <;> simp [datasizeBytes]

private theorem pairs_injective {first second : List (U64 × U64)}
    (same : first.flatMap pairBytes = second.flatMap pairBytes) : first = second := by
  induction first generalizing second with
  | nil =>
    have length := congrArg List.length same
    rw [length_pairs, length_pairs, List.length_nil] at length
    exact (List.length_eq_zero_iff.mp (by omega)).symm
  | cons pair pairs ih =>
    cases second with
    | nil =>
      have length := congrArg List.length same
      rw [length_pairs, length_pairs, List.length_cons, List.length_nil] at length
      omega
    | cons pair' pairs' =>
      rw [List.flatMap_cons, List.flatMap_cons] at same
      obtain ⟨heads, tails⟩ := List.append_inj same (by rw [length_pairBytes, length_pairBytes])
      rw [pairBytes_injective heads, ih tails]

private theorem datasizeBytes_injective {first second : Option U64}
    (same : datasizeBytes first = datasizeBytes second) : first = second := by
  have length := congrArg List.length same
  rw [length_datasizeBytes, length_datasizeBytes] at length
  cases first with
  | none =>
    cases second with
    | none => rfl
    | some size => simp at length
  | some size =>
    cases second with
    | none => simp at length
    | some size' => rw [u64Bytes_injective (List.cons.inj same).2]

/-- The tail of the hashed bytes is a size or no size, as the total length modulo sixteen shows. -/
theorem shape_injective {pairs pairs' : List (U64 × U64)} {datasize datasize' : Option U64}
    (same : pairs.flatMap pairBytes ++ datasizeBytes datasize =
      pairs'.flatMap pairBytes ++ datasizeBytes datasize') : pairs = pairs' ∧ datasize = datasize' := by
  have length := congrArg List.length same
  rw [List.length_append, List.length_append, length_pairs, length_pairs, length_datasizeBytes,
    length_datasizeBytes] at length
  have counts : pairs.length = pairs'.length := by
    split at length <;> split at length <;> omega
  obtain ⟨pairsSame, datasizeSame⟩ := List.append_inj same (by rw [length_pairs, length_pairs, counts])
  exact ⟨pairs_injective pairsSame, datasizeBytes_injective datasizeSame⟩

private theorem patternBytes_injective {first second : IndexIdentity}
    (same : first.patternBytes = second.patternBytes) : first = second := by
  obtain ⟨program, pairs, datasize⟩ := first
  obtain ⟨program', pairs', datasize'⟩ := second
  rw [patternBytes, patternBytes, List.append_assoc, List.append_assoc] at same
  obtain ⟨programs, shapes⟩ := List.append_inj same (by rw [length_programBytes, length_programBytes])
  obtain ⟨pairsSame, datasizeSame⟩ := shape_injective shapes
  have programSame : program = program' := programBytes_injective programs
  change pairs = pairs' at pairsSame
  change datasize = datasize' at datasizeSame
  rw [programSame, pairsSame, datasizeSame]

/-! ## Names -/

private theorem length_toHex (bytes : List UInt8) : (toHex bytes).length = 2 * bytes.length := by
  induction bytes with
  | nil => rfl
  | cons byte bytes ih =>
    rw [toHex, List.flatMap_cons, List.length_append, ← toHex, ih, List.length_cons]
    simp only [List.length_cons, List.length_nil]
    omega

private theorem length_patternId (blake3 : List UInt8 → Digest) (identity : IndexIdentity) :
    (identity.patternId blake3).toList.length = 16 := by
  rw [patternId, String.toList_ofList, List.length_take, length_toHex, (blake3 _).property]
  rfl

/-- A name ends in an id of fixed width, so it determines the table and the id. -/
theorem pgIndexName_injective {blake3 : List UInt8 → Digest} {first second : IndexIdentity}
    {table table' : String} (same : first.pgIndexName blake3 table = second.pgIndexName blake3 table') :
    first.patternId blake3 = second.patternId blake3 := by
  have characters := congrArg String.toList same
  simp only [pgIndexName, String.toList_append] at characters
  have ids := (List.append_inj' characters (by rw [length_patternId, length_patternId])).2
  exact String.toList_inj.mp ids

end IndexIdentity

/-! ## Rows -/

theorem toU64_toI64 (value : U64) : toU64 (toI64 value) = value := by
  have bound := value.isLt
  apply Fin.ext
  change (toI64 value % 2 ^ 64).toNat = value.val
  rw [toI64]
  split <;> omega

private theorem pairFromJson_pair (pair : U64 × U64) :
    pairFromJson (.array [.posInt pair.1, .posInt pair.2]) = some pair :=
  rfl

private theorem offsetsFromJson_toJson (pairs : List (U64 × U64)) : offsetsFromJson (offsetsToJson pairs) = pairs := by
  rw [offsetsFromJson, offsetsToJson, Json.asArray]
  simp only
  induction pairs with
  | nil => rfl
  | cons pair pairs ih => rw [List.map_cons, List.filterMap_cons_some (pairFromJson_pair pair), ih]

theorem pubkeyTryFrom_programBytes (program : Pubkey) :
    pubkeyTryFrom (IndexIdentity.programBytes program) = some program := by
  rw [pubkeyTryFrom, dif_pos (IndexIdentity.length_programBytes program)]
  have value : LittleEndian.ofBytes (IndexIdentity.programBytes program).reverse = program.val := by
    rw [IndexIdentity.programBytes, List.reverse_reverse,
      LittleEndian.ofBytes_toBytes (IndexIdentity.pubkey_lt program)]
  exact congrArg some (Fin.ext value)

private theorem identity_rowToPattern (blake3 : List UInt8 → Digest) (identity : IndexIdentity) :
    (rowToPattern (identity.toColumns blake3)).identity = some identity := by
  have sizes : (identity.filter.datasize.map toI64).map toU64 = identity.filter.datasize := by
    rw [Option.map_map]
    cases identity.filter.datasize with
    | none => rfl
    | some size => exact congrArg some (toU64_toI64 size)
  simp only [PatternRow.identity, rowToPattern, IndexIdentity.toColumns, pubkeyTryFrom_programBytes,
    offsetsFromJson_toJson, sizes, IndexIdentity.fromParts]
  rfl

/-- The hashed bytes determine the identity, a stored row gives the identity and its id back, and where
the truncated hash has no collision among the shapes in use, two shapes share neither a row nor an index
name, on any table. -/
theorem pattern_ids_separate_shapes (blake3 : List UInt8 → Digest) (shapes : Set IndexIdentity)
    (collisionFree : ∀ first ∈ shapes, ∀ second ∈ shapes,
      first.patternId blake3 = second.patternId blake3 → first.patternBytes = second.patternBytes) :
    (∀ first second : IndexIdentity, first.patternBytes = second.patternBytes → first = second) ∧
    (∀ identity : IndexIdentity, ∃ restored,
      (rowToPattern (identity.toColumns blake3)).identity = some restored ∧ restored = identity ∧
      restored.patternId blake3 = (rowToPattern (identity.toColumns blake3)).patternId ∧
      ∀ table, restored.pgIndexName blake3 table = identity.pgIndexName blake3 table) ∧
    (∀ first ∈ shapes, ∀ second ∈ shapes, first ≠ second →
      (first.toColumns blake3).patternId ≠ (second.toColumns blake3).patternId ∧
      ∀ table table', first.pgIndexName blake3 table ≠ second.pgIndexName blake3 table') := by
  refine ⟨fun first second => IndexIdentity.patternBytes_injective, ?_, ?_⟩
  · intro identity
    exact ⟨identity, identity_rowToPattern blake3 identity, rfl, rfl, fun _ => rfl⟩
  · intro first inUse second inUse' different
    have separate : first.patternId blake3 ≠ second.patternId blake3 := fun same =>
      different (IndexIdentity.patternBytes_injective (collisionFree first inUse second inUse' same))
    exact ⟨separate, fun table table' same => separate (IndexIdentity.pgIndexName_injective same)⟩

/-- The hash of two preimages of program one: the pair (0, 32) with size 165, and the pair (32, 32). -/
def sampledBlake3 (bytes : List UInt8) : Digest :=
  if bytes.length = 57 then
    ⟨[75, 138, 255, 77, 205, 128, 161, 115, 35, 205, 222, 143, 142, 254, 181, 54, 203, 200, 190, 248, 209,
      195, 204, 187, 182, 114, 173, 96, 233, 221, 92, 212], rfl⟩
  else
    ⟨[26, 68, 104, 21, 240, 56, 1, 98, 200, 93, 62, 152, 207, 31, 108, 132, 227, 31, 1, 145, 223, 166, 163,
      5, 163, 147, 82, 190, 118, 30, 222, 86], rfl⟩

/-- Two shapes of one program, with the ids that the hash gives them. -/
theorem pattern_ids_separate_two_shapes :
    let sized : IndexIdentity := ⟨1, [(0, 32)], some 165⟩
    let unsized : IndexIdentity := ⟨1, [(32, 32)], none⟩
    sized.patternId sampledBlake3 = "4b8aff4dcd80a173" ∧
    ∀ table table', sized.pgIndexName sampledBlake3 table ≠ unsized.pgIndexName sampledBlake3 table' := by
  intro sized unsized
  have sizedId : sized.patternId sampledBlake3 = "4b8aff4dcd80a173" := by decide +kernel
  have unsizedId : unsized.patternId sampledBlake3 = "1a446815f0380162" := by decide +kernel
  refine ⟨sizedId, ((pattern_ids_separate_shapes sampledBlake3 {sized, unsized} ?_).2.2
    sized (by simp) unsized (by simp) (by decide)).2⟩
  rintro first (rfl | rfl) second (rfl | rfl) same
  · rfl
  · rw [sizedId, unsizedId] at same
    exact absurd same (by decide)
  · rw [sizedId, unsizedId] at same
    exact absurd same (by decide)
  · rfl

end Cloudbreak.Model.Filters
