import Cloudbreak.Model.Filters.CreateIndex
import Cloudbreak.Proofs.Filters.Identity
import Cloudbreak.Proofs.Filters.SqlFilters

/-! # Which queries their own index serves

The columns of an index are the substrings of all byte filters. The query compares the same substrings, except
on a token program, where the mint, the owner and the delegate tag have expressions of their own. Indexes are
withheld from one token program only, so on the other one a query may not compare what its index holds.
-/

namespace Cloudbreak.Model.Filters

open Cloudbreak.ToMathlib
open Processed (isTokenProgram token2022ProgramId)

variable {Memcmp : Type} {client : MemcmpClient Memcmp} {filter : RpcFilterType Memcmp}
  {filters : List (RpcFilterType Memcmp)} {table : Table} {tokenProgram : Bool} {program : Pubkey} {label : String}
  {params : List (List UInt8)} {clause : SqlClause} {sql : SqlFilters} {identity : IndexIdentity}

/-! ## What a predicate compares -/

private theorem equated_of_plain {memcmp : Memcmp} {bytes : Slice} (decoded : client.bytes memcmp = some bytes)
    (plain : Plain client tokenProgram memcmp bytes)
    (translated : Translated client tokenProgram table params (.memcmp memcmp) clause) :
    clause.equated = [(table, .substring ((client.offset memcmp).val + 1) bytes.val.length)] := by
  obtain ⟨param, value, same, -, -⟩ := translated
  cases form_of_filterSql same with
  | tokenOwner found place size token =>
    obtain rfl := Option.some.inj (decoded.symm.trans found)
    exact absurd ⟨place, size⟩ (plain token).1
  | tokenMint found place size token =>
    obtain rfl := Option.some.inj (decoded.symm.trans found)
    exact absurd ⟨place, size⟩ (plain token).2.1
  | delegateTag found place token =>
    exact absurd ⟨place, Option.some.inj (decoded.symm.trans found)⟩ (plain token).2.2
  | plain found =>
    obtain rfl := Option.some.inj (decoded.symm.trans found)
    rfl

/-- A predicate compares a substring for a plain filter at its place, or as one half of the delegate tag. -/
theorem plain_of_equated {offset length : ℕ} (compared : (table, .substring (offset + 1) length) ∈ clause.equated)
    (whole : (offset, length) ≠ (72, 1) ∧ (offset, length) ≠ (73, 3))
    (translated : Translated client tokenProgram table params filter clause) :
    ∃ memcmp bytes, filter = .memcmp memcmp ∧ client.bytes memcmp = some bytes ∧
      Plain client tokenProgram memcmp bytes ∧ (client.offset memcmp).val = offset ∧ bytes.val.length = length := by
  obtain ⟨param, value, same, -, -⟩ := translated
  cases form_of_filterSql same with
  | dataSize | tokenAccountState => cases compared
  | tokenOwner | tokenMint => simp [SqlClause.equated] at compared
  | delegateTag =>
    simp only [delegateTagClause, SqlClause.equated, List.singleton_append, List.mem_cons, Prod.mk.injEq,
      Column.substring.injEq, true_and, List.not_mem_nil, or_false] at compared
    rcases compared with ⟨first, second⟩ | ⟨first, second⟩
    · exact absurd (by rw [Nat.add_right_cancel first, second]) whole.1
    · exact absurd (by rw [Nat.add_right_cancel first, second]) whole.2
  | @plain memcmp bytes decoded plain =>
    simp only [SqlClause.equated, List.mem_singleton, Prod.mk.injEq, Column.substring.injEq, true_and] at compared
    exact ⟨memcmp, bytes, rfl, decoded, plain, (Nat.add_right_cancel compared.1).symm, compared.2.symm⟩

/-- Both lists of a pointwise relation have partners for their elements. -/
theorem exists_partners {α β : Type} {relation : α → β → Prop} {left : List α} {right : List β}
    (related : List.Forall₂ relation left right) :
    (∀ first ∈ left, ∃ second ∈ right, relation first second) ∧
      ∀ second ∈ right, ∃ first ∈ left, relation first second := by
  induction related with
  | nil => simp
  | cons head _ inductive_step =>
    simp only [List.forall_mem_cons, List.exists_mem_cons_iff]
    exact ⟨⟨Or.inl head, fun first held => Or.inr (inductive_step.1 first held)⟩,
      Or.inl head, fun second held => Or.inr (inductive_step.2 second held)⟩

/-! ## The index of a request -/

/-- The filters that an identity comes from. -/
theorem identity_of_parse (parsed : IndexIdentity.parse client.toMemcmpLibrary program (some ⟨some filters⟩) =
      some identity) :
    program ≠ tokenProgramId ∧ identity.program = program ∧
      (∀ pair, pair ∈ identity.filter.offsetsLengths ↔ ∃ memcmp bytes, .memcmp memcmp ∈ filters ∧
        client.bytes memcmp = some bytes ∧ pair = (client.offset memcmp, lenU64 bytes)) ∧
      ∀ size ∈ identity.filter.datasize, .dataSize size ∈ filters := by
  have accepted : ¬ Rejected client.toMemcmpLibrary program filters := by
    intro rejected
    rw [IndexIdentity.parse_of_rejected client.toMemcmpLibrary rejected] at parsed
    cases parsed
  rw [IndexIdentity.parse_of_accepted client.toMemcmpLibrary accepted] at parsed
  split_ifs at parsed
  obtain rfl := Option.some.inj parsed
  refine ⟨fun legacy => accepted (Or.inl legacy), rfl, fun pair => ?_, fun size last => ?_⟩
  · rw [mem_dedup, List.mem_insertionSort, List.mem_filterMap]
    constructor
    · rintro ⟨filter, given, found⟩
      cases filter with
      | dataSize | tokenAccountState | valueCmp => cases found
      | memcmp memcmp =>
        simp only [IndexIdentity.memcmpPair, IndexIdentity.memcmpValue, Option.map_map, Option.map_eq_some_iff,
          Function.comp_apply] at found
        obtain ⟨bytes, decoded, rfl⟩ := found
        exact ⟨memcmp, bytes, given, decoded, rfl⟩
    · rintro ⟨memcmp, bytes, given, decoded, rfl⟩
      refine ⟨_, given, ?_⟩
      simp only [IndexIdentity.memcmpPair, IndexIdentity.memcmpValue, decoded]
      rfl
  · exact (IndexIdentity.mem_sizes filters size).mp (List.mem_of_getLast? last)

/-- Without an overflow an index has one column for each pair. -/
theorem createIndex_eq (blake3 : List UInt8 → Digest) (table : Table)
    (adds : ∀ pair ∈ identity.filter.offsetsLengths, pair.1.val + 1 < 2 ^ 64) :
    identity.createIndex blake3 table =
      some ⟨identity.pgIndexName blake3 table.name, table,
        identity.filter.offsetsLengths.map fun pair => .substring (pair.1.val + 1) pair.2.val, identity.program,
        identity.filter.datasize⟩ := by
  have columns : ∀ pairs : List (U64 × U64), (∀ pair ∈ pairs, pair.1.val + 1 < 2 ^ 64) →
      (pairs.mapM fun pair => (checkedAdd pair.1 1).map fun start => Column.substring start pair.2) =
        some (pairs.map fun pair => .substring (pair.1.val + 1) pair.2.val) := by
    intro pairs small
    induction pairs with
    | nil => rfl
    | cons pair rest inductive_step =>
      rw [List.forall_mem_cons] at small
      have added : checkedAdd pair.1.val 1 = some (pair.1.val + 1) := if_pos small.1
      rw [List.mapM_cons, added, inductive_step small.2]
      rfl
  rw [IndexIdentity.createIndex, columns _ adds]
  rfl

/-- The index of an identity can serve a query on one table: its columns are compared, and its rows include all
that the query reads. -/
def Usable (blake3 : List UInt8 → Digest) (identity : IndexIdentity) (program : Pubkey) (sql : SqlFilters)
    (table : Table) : Prop :=
  ∃ index, identity.createIndex blake3 table = some index ∧
    (∀ column ∈ index.columns, ∃ clause ∈ sql.clauses table, (table, column) ∈ clause.equated) ∧
    ∀ latestSlot owner slot data, gpaWhere program latestSlot sql table owner slot data = some true →
      index.holds owner data = true

/-- No byte filter of a Token-2022 request has an expression of its own, or another filter has the same place
and length. -/
def KeepsSubstrings (client : MemcmpClient Memcmp) (program : Pubkey) (filters : List (RpcFilterType Memcmp)) :
    Prop :=
  program = token2022ProgramId →
    hasMemcmp client filters tokenAccountMintOffset (some 32) = false ∧
      hasMemcmp client filters tokenAccountOwnerOffset (some 32) = false ∧
      (hasMemcmp client filters tokenAccountDelegateTagOffset (some 4) = true →
        ∃ memcmp bytes, .memcmp memcmp ∈ filters ∧ client.offset memcmp = tokenAccountDelegateTagOffset ∧
          client.bytes memcmp = some bytes ∧ bytes.val.length = 4 ∧ bytes ≠ delegateTagBytes)

theorem hasMemcmp_iff {offset : U64} {length : ℕ} :
    hasMemcmp client filters offset (some length) = true ↔ ∃ memcmp bytes, .memcmp memcmp ∈ filters ∧
      client.offset memcmp = offset ∧ client.bytes memcmp = some bytes ∧ bytes.val.length = length := by
  rw [hasMemcmp, List.any_eq_true]
  constructor
  · rintro ⟨filter, given, found⟩
    cases filter with
    | dataSize | tokenAccountState | valueCmp => cases found
    | memcmp memcmp =>
      simp only [Bool.and_eq_true, decide_eq_true_eq, Option.any_eq_true, Option.all_some] at found
      obtain ⟨place, bytes, decoded, size⟩ := found
      exact ⟨memcmp, bytes, given, place, decoded, size⟩
  · rintro ⟨memcmp, bytes, given, place, decoded, size⟩
    refine ⟨_, given, ?_⟩
    simp [place, decoded, size]

/-- Every byte filter has a plain one with the same place and length. -/
theorem exists_plain (notLegacy : program ≠ tokenProgramId) (keeps : KeepsSubstrings client program filters)
    {memcmp : Memcmp} {bytes : Slice} (given : .memcmp memcmp ∈ filters)
    (decoded : client.bytes memcmp = some bytes) :
    ∃ memcmp' bytes', .memcmp memcmp' ∈ filters ∧ client.bytes memcmp' = some bytes' ∧
      client.offset memcmp' = client.offset memcmp ∧ bytes'.val.length = bytes.val.length ∧
      Plain client (isTokenProgram program) memcmp' bytes' := by
  by_cases token : program = token2022ProgramId
  · obtain ⟨mint, owner, tag⟩ := keeps token
    have noOwner : ∀ memcmp bytes, .memcmp memcmp ∈ filters → client.bytes memcmp = some bytes →
        ¬ (client.offset memcmp = tokenAccountOwnerOffset ∧ bytes.val.length = 32) := by
      rintro memcmp bytes given decoded ⟨place, size⟩
      rw [hasMemcmp_iff.mpr ⟨memcmp, bytes, given, place, decoded, size⟩] at owner
      cases owner
    have noMint : ∀ memcmp bytes, .memcmp memcmp ∈ filters → client.bytes memcmp = some bytes →
        ¬ (client.offset memcmp = tokenAccountMintOffset ∧ bytes.val.length = 32) := by
      rintro memcmp bytes given decoded ⟨place, size⟩
      rw [hasMemcmp_iff.mpr ⟨memcmp, bytes, given, place, decoded, size⟩] at mint
      cases mint
    by_cases isTag : client.offset memcmp = tokenAccountDelegateTagOffset ∧ bytes = delegateTagBytes
    · obtain ⟨place, rfl⟩ := isTag
      obtain ⟨memcmp', bytes', given', place', decoded', size', differs⟩ :=
        tag (hasMemcmp_iff.mpr ⟨memcmp, delegateTagBytes, given, place, decoded, rfl⟩)
      exact ⟨memcmp', bytes', given', decoded', place'.trans place.symm, size', fun _ =>
        ⟨noOwner _ _ given' decoded', noMint _ _ given' decoded', fun both => differs both.2⟩⟩
    · exact ⟨memcmp, bytes, given, decoded, rfl, rfl, fun _ =>
        ⟨noOwner _ _ given decoded, noMint _ _ given decoded, isTag⟩⟩
  · have other : isTokenProgram program = false := by simp [isTokenProgram, notLegacy, token]
    exact ⟨memcmp, bytes, given, decoded, rfl, rfl, fun claimed => absurd (other.symm.trans claimed) (by simp)⟩

/-- A row that the query reads has the owner and every size it asks for. -/
theorem of_gpaWhere (decodes : ∀ filter ∈ filters, Decodes client filter)
    (translated : List.Forall₂ (Translated client tokenProgram table sql.params) (filters.filter hasClause)
      (sql.clauses table)) {latestSlot slot : U64} {owner : Pubkey} {data : List UInt8}
    (reads : gpaWhere program latestSlot sql table owner slot data = some true) :
    owner = program ∧ ∀ size, .dataSize size ∈ filters → data.length = size.val := by
  rw [gpaWhere, Option.map_eq_some_iff] at reads
  obtain ⟨every, evaluated, both⟩ := reads
  simp only [Bool.and_eq_true, decide_eq_true_eq] at both
  obtain ⟨⟨owned, -⟩, rfl⟩ := both
  refine ⟨owned, fun size given => ?_⟩
  rw [evalAll_of_translated (fun filter held => decodes filter (List.mem_of_mem_filter held)) translated] at evaluated
  split_ifs at evaluated
  have held := List.all_eq_true.mp (Option.some.inj evaluated) _ (List.mem_filter.mpr ⟨given, rfl⟩)
  exact of_decide_eq_true ((Bool.or_false _).symm.trans held)

/-- The columns of a usable index are compared for plain filters. -/
theorem plain_of_usable {blake3 : List UInt8 → Digest}
    (translated : List.Forall₂ (Translated client tokenProgram table sql.params) (filters.filter hasClause)
      (sql.clauses table))
    (adds : ∀ pair ∈ identity.filter.offsetsLengths, pair.1.val + 1 < 2 ^ 64)
    (usable : Usable blake3 identity program sql table) {pair : U64 × U64}
    (indexed : pair ∈ identity.filter.offsetsLengths)
    (whole : (pair.1.val, pair.2.val) ≠ (72, 1) ∧ (pair.1.val, pair.2.val) ≠ (73, 3)) :
    ∃ memcmp bytes, .memcmp memcmp ∈ filters ∧ client.bytes memcmp = some bytes ∧
      Plain client tokenProgram memcmp bytes ∧ client.offset memcmp = pair.1 ∧ bytes.val.length = pair.2.val := by
  obtain ⟨index, made, compared, -⟩ := usable
  rw [createIndex_eq blake3 table adds, Option.some.injEq] at made
  subst made
  obtain ⟨clause, listed, equal⟩ := compared _ (List.mem_map_of_mem indexed)
  obtain ⟨filter, held, this⟩ := (exists_partners translated).2 clause listed
  obtain ⟨memcmp, bytes, rfl, decoded, plain, place, size⟩ := plain_of_equated equal whole this
  exact ⟨memcmp, bytes, List.mem_of_mem_filter held, decoded, plain, Fin.ext place, size⟩

/-- The index of a request can serve its query on both tables exactly when no filter of a Token-2022 request is
compared in another form only. -/
theorem IndexIdentity.createIndex_usable_iff (blake3 : List UInt8 → Digest) (documented : client.Documented)
    (parsed : IndexIdentity.parse client.toMemcmpLibrary program (some ⟨some filters⟩) = some identity)
    (built : SqlFilters.build client program filters label = some (.ok sql)) :
    (∀ table, Usable blake3 identity program sql table) ↔ KeepsSubstrings client program filters := by
  have accepts : Accepts client program filters label := by
    intro error rejected
    rw [built] at rejected
    cases rejected
  have decodes := decodes_withDelegateTag program documented (build_of_accepts accepts).1
  have fullAdds := offsetAdds_of_build documented accepts built
  have translated : ∀ table, List.Forall₂ (Translated client (isTokenProgram program) table sql.params)
      ((withDelegateTag client program filters).filter hasClause) (sql.clauses table) := by
    obtain ⟨sql', same, all⟩ := build_translated documented accepts fullAdds
    rw [built, Option.some.injEq, Except.ok.injEq] at same
    exact same ▸ all
  have kept : ∀ filter ∈ filters, filter ∈ withDelegateTag client program filters :=
    fun filter given => List.mem_append_left _ given
  obtain ⟨notLegacy, owned, pairs, sizes⟩ := identity_of_parse parsed
  have adds : ∀ pair ∈ identity.filter.offsetsLengths, pair.1.val + 1 < 2 ^ 64 := by
    intro pair indexed
    obtain ⟨memcmp, bytes, given, -, rfl⟩ := (pairs pair).mp indexed
    exact fullAdds _ (kept _ given)
  constructor
  · intro usable token
    have tokenProgram : isTokenProgram program = true := by rw [token]; decide
    -- Each byte filter that is not a half of the tag has a plain partner among the translated filters.
    have partner : ∀ memcmp bytes, .memcmp memcmp ∈ filters → client.bytes memcmp = some bytes →
        (client.offset memcmp).val ≠ 73 → bytes.val.length ≠ 1 →
        ∃ memcmp' bytes', .memcmp memcmp' ∈ withDelegateTag client program filters ∧
          client.bytes memcmp' = some bytes' ∧ Plain client (isTokenProgram program) memcmp' bytes' ∧
          client.offset memcmp' = client.offset memcmp ∧ bytes'.val.length = bytes.val.length := by
      intro memcmp bytes given decoded place size
      refine plain_of_usable (translated .accounts) adds (usable .accounts)
        ((pairs _).mpr ⟨memcmp, bytes, given, decoded, rfl⟩) ⟨?_, ?_⟩
      · exact fun half => size (congrArg Prod.snd half)
      · exact fun half => place (congrArg Prod.fst half)
    refine ⟨?_, ?_, fun tagged => ?_⟩
    · rw [Bool.eq_false_iff, Ne, hasMemcmp_iff]
      rintro ⟨memcmp, bytes, given, place, decoded, size⟩
      obtain ⟨memcmp', bytes', -, -, plain, place', size'⟩ := partner memcmp bytes given decoded
        (by rw [place]; decide) (by omega)
      exact (plain tokenProgram).2.1 ⟨place'.trans place, size'.trans size⟩
    · rw [Bool.eq_false_iff, Ne, hasMemcmp_iff]
      rintro ⟨memcmp, bytes, given, place, decoded, size⟩
      obtain ⟨memcmp', bytes', -, -, plain, place', size'⟩ := partner memcmp bytes given decoded
        (by rw [place]; decide) (by omega)
      exact (plain tokenProgram).1 ⟨place'.trans place, size'.trans size⟩
    · obtain ⟨memcmp, bytes, given, place, decoded, size⟩ := hasMemcmp_iff.mp tagged
      obtain ⟨memcmp', bytes', held, decoded', plain, place', size'⟩ := partner memcmp bytes given decoded
        (by rw [place]; decide) (by omega)
      have differs : bytes' ≠ delegateTagBytes :=
        fun same => (plain tokenProgram).2.2 ⟨place'.trans place, same⟩
      refine ⟨memcmp', bytes', ?_, place'.trans place, decoded', size'.trans size, differs⟩
      -- The added tag is not plain, so the partner is a filter of the request.
      rw [withDelegateTag, List.mem_append] at held
      rcases held with given' | added
      · exact given'
      · split_ifs at added with adds
        · obtain rfl := RpcFilterType.memcmp.inj (List.mem_singleton.mp added)
          rw [documented.bytes_new, Option.some.injEq] at decoded'
          exact absurd decoded'.symm differs
        · cases added
  · intro keeps table
    refine ⟨_, createIndex_eq blake3 table adds, fun column listed => ?_,
      fun latestSlot owner slot data reads => ?_⟩
    · obtain ⟨pair, indexed, rfl⟩ := List.mem_map.mp listed
      obtain ⟨memcmp, bytes, given, decoded, rfl⟩ := (pairs pair).mp indexed
      obtain ⟨memcmp', bytes', given', decoded', place, size, plain⟩ := exists_plain notLegacy keeps given decoded
      obtain ⟨clause, listed', this⟩ := (exists_partners (translated table)).1 (.memcmp memcmp')
        (List.mem_filter.mpr ⟨kept _ given', rfl⟩)
      refine ⟨clause, listed', ?_⟩
      rw [equated_of_plain decoded' plain this, place, size]
      exact List.mem_singleton_self _
    · obtain ⟨ownedRow, sized⟩ := of_gpaWhere decodes (translated table) reads
      rw [PartialIndex.holds, ownedRow, owned, Bool.and_eq_true, decide_eq_true_eq, Option.all_eq_true]
      exact ⟨rfl, fun size asked => decide_eq_true (sized size (kept _ (sizes size asked)))⟩

/-- The digest of the Token-2022 program with the pair (76, 32) and the size 165. -/
def delegateDigest : Digest :=
  ⟨[0x5a, 0xdc, 0x42, 0x53, 0x5d, 0x2a, 0xda, 0x20, 0xd5, 0x62, 0xcc, 0xd9, 0x5f, 0xc9, 0x8f, 0x53,
    0x96, 0x27, 0x9c, 0xbc, 0x9b, 0x40, 0x81, 0xcf, 0xe7, 0xc5, 0xc0, 0xf6, 0xeb, 0x8d, 0x28, 0x78], rfl⟩

/-- A Token-2022 request by delegate keeps its index. -/
theorem IndexIdentity.createIndex_usable_iff_delegate :
    ∃ sql, SqlFilters.build pairClient token2022ProgramId
        [.memcmp (76, ⟨List.replicate 32 7, by decide⟩), .dataSize 165] "gpa" = some (.ok sql) ∧
      ∀ table, Usable (fun _ => delegateDigest) ⟨token2022ProgramId, [(76, 32)], some 165⟩ token2022ProgramId sql
        table := by
  have built : SqlFilters.build pairClient token2022ProgramId
      [.memcmp (76, ⟨List.replicate 32 7, by decide⟩), .dataSize 165] "gpa" = some (.ok _) := rfl
  refine ⟨_, built, (IndexIdentity.createIndex_usable_iff _ pairClient_documented rfl built).mpr fun _ => ?_⟩
  exact ⟨by decide, by decide, fun tagged => absurd tagged (by decide)⟩

/-- A Token-2022 request by mint compares the generated column, and its index holds the substring. -/
theorem IndexIdentity.createIndex_not_usable :
    ∃ (identity : IndexIdentity) (sql : SqlFilters),
      IndexIdentity.parse pairClient.toMemcmpLibrary token2022ProgramId
          (some ⟨some [.memcmp (0, ⟨List.replicate 32 7, by decide⟩)]⟩) = some identity ∧
        SqlFilters.build pairClient token2022ProgramId [.memcmp (0, ⟨List.replicate 32 7, by decide⟩)] "gpa" =
          some (.ok sql) ∧
        ∀ (blake3 : List UInt8 → Digest) (table : Table),
          ¬ Usable blake3 identity token2022ProgramId sql table := by
  refine ⟨⟨token2022ProgramId, [(0, 32)], none⟩, ⟨[.bytes .accounts .tokenMint true (.param 1)],
    [.bytes .snapshotAccounts .tokenMint true (.param 1)], [List.replicate 32 7], "gpa_mint"⟩, rfl, rfl, ?_⟩
  rintro blake3 table ⟨index, made, compared, -⟩
  cases made
  obtain ⟨clause, listed, equal⟩ := compared (.substring 1 32) (List.mem_singleton_self _)
  cases table with
  | accounts =>
    obtain rfl := List.mem_singleton.mp listed
    simp [SqlClause.equated] at equal
  | snapshotAccounts =>
    obtain rfl := List.mem_singleton.mp listed
    simp [SqlClause.equated] at equal

end Cloudbreak.Model.Filters
