import Cloudbreak.Model.Filters.IndexIdentity

/-! # Requests that repeat or reorder their filters

Parsing sorts and removes repetitions, so the pairs of an identity depend on the set of the byte filters
only; the size is that of the last size filter. The fingerprint hashes the bytes of every byte filter,
once for each time it occurs. What a request shares with every reordering and repetition of itself
follows from these two facts.
-/

namespace Cloudbreak.Model.Filters

variable {Memcmp : Type}

/-- A request with the same filters in any order, some of them repeated. -/
def Rearranged (filters filters' : List (RpcFilterType Memcmp)) : Prop :=
  ∃ repeated, (∀ filter ∈ repeated, filter ∈ filters) ∧ filters'.Perm (filters ++ repeated)

theorem Rearranged.of_perm {filters filters' : List (RpcFilterType Memcmp)} (perm : filters'.Perm filters) :
    Rearranged filters filters' := ⟨[], by simp, by simpa using perm⟩

theorem Rearranged.twice (filters : List (RpcFilterType Memcmp)) : Rearranged filters (filters ++ filters) :=
  ⟨filters, fun _ member => member, List.Perm.refl _⟩

theorem Rearranged.mem_iff {filters filters' : List (RpcFilterType Memcmp)}
    (rearranged : Rearranged filters filters') (filter : RpcFilterType Memcmp) :
    filter ∈ filters' ↔ filter ∈ filters := by
  obtain ⟨repeated, known, perm⟩ := rearranged
  rw [perm.mem_iff, List.mem_append]
  exact ⟨fun member => member.elim id (known filter), Or.inl⟩

/-- The request is not indexable whatever else it asks: the program is never indexed, or a byte filter
does not decode. -/
def Rejected (library : MemcmpLibrary Memcmp) (program : Pubkey) (filters : List (RpcFilterType Memcmp)) : Prop :=
  program = tokenProgramId ∨ ∃ memcmp, .memcmp memcmp ∈ filters ∧ library.bytes memcmp = none

/-- All size filters ask for one size. -/
def OneSize (filters : List (RpcFilterType Memcmp)) : Prop :=
  ∀ first second, .dataSize first ∈ filters → .dataSize second ∈ filters → first = second

/-- No byte filter decodes. -/
def NoValues (library : MemcmpLibrary Memcmp) (filters : List (RpcFilterType Memcmp)) : Prop :=
  ∀ memcmp, .memcmp memcmp ∈ filters → library.bytes memcmp = none

/-! ## The canonical pairs -/

theorem mem_dedup (pair : U64 × U64) (pairs : List (U64 × U64)) : pair ∈ dedup pairs ↔ pair ∈ pairs := by
  induction pairs with
  | nil => rfl
  | cons first rest ih =>
    cases rest with
    | nil => rfl
    | cons second rest =>
      rw [dedup]
      split
      · next same => rw [ih, same]; simp
      · rw [List.mem_cons, ih, List.mem_cons (l := second :: rest)]

private theorem pairwise_dedup {pairs : List (U64 × U64)} (sorted : pairs.Pairwise PairLe) :
    (dedup pairs).Pairwise fun first second => toLex first < toLex second := by
  induction pairs with
  | nil => exact List.Pairwise.nil
  | cons first rest ih =>
    cases rest with
    | nil => exact List.pairwise_singleton _ _
    | cons second rest =>
      obtain ⟨below, sortedRest⟩ := List.pairwise_cons.mp sorted
      rw [dedup]
      split
      · exact ih sortedRest
      · next different =>
        refine List.pairwise_cons.mpr ⟨?_, ih sortedRest⟩
        intro pair member
        have strict : toLex first < toLex second :=
          lt_of_le_of_ne (below second (List.mem_cons_self ..)) (fun same => different (toLex.injective same))
        rcases List.mem_cons.mp ((mem_dedup pair (second :: rest)).mp member) with rfl | later
        · exact strict
        · exact lt_of_lt_of_le strict ((List.pairwise_cons.mp sortedRest).1 pair later)

private theorem dedup_insertionSort_congr {pairs pairs' : List (U64 × U64)}
    (same : ∀ pair, pair ∈ pairs ↔ pair ∈ pairs') :
    dedup (pairs.insertionSort PairLe) = dedup (pairs'.insertionSort PairLe) := by
  have total : Std.Total PairLe := ⟨fun first second => le_total (toLex first) (toLex second)⟩
  have trans : IsTrans (U64 × U64) PairLe := ⟨fun first second third => le_trans⟩
  have strict : Std.Irrefl fun first second : U64 × U64 => toLex first < toLex second :=
    ⟨fun pair => lt_irrefl (toLex pair)⟩
  have asymm : Std.Antisymm fun first second : U64 × U64 => toLex first < toLex second :=
    ⟨fun first second below above => absurd above (lt_asymm below)⟩
  refine (pairwise_dedup (List.pairwise_insertionSort PairLe pairs)).eq_of_mem_iff
    (pairwise_dedup (List.pairwise_insertionSort PairLe pairs')) ?_
  intro pair
  rw [mem_dedup, mem_dedup, List.mem_insertionSort, List.mem_insertionSort]
  exact same pair

/-! ## Parsing -/

namespace IndexIdentity

variable (library : MemcmpLibrary Memcmp)

def memcmpPair (filter : RpcFilterType Memcmp) : Option (U64 × U64) :=
  (memcmpValue library filter).map fun value => (value.1, lenU64 value.2)

def sizeOf : RpcFilterType Memcmp → Option U64
  | .dataSize size => some size
  | _ => none

private theorem parseFilters_rejects {filters : List (RpcFilterType Memcmp)} {memcmp : Memcmp}
    (member : .memcmp memcmp ∈ filters) (undecodable : library.bytes memcmp = none)
    (pairs : List (U64 × U64)) (size : Option U64) : parseFilters library filters pairs size = none := by
  induction filters generalizing pairs size with
  | nil => exact absurd member (by simp)
  | cons filter filters ih =>
    cases filter with
    | memcmp other =>
      rw [parseFilters]
      rcases List.mem_cons.mp member with same | member
      · obtain rfl := RpcFilterType.memcmp.inj same
        rw [undecodable]
      · split
        · rfl
        · exact ih member _ _
    | dataSize other => exact ih (by simpa using member) _ _
    | tokenAccountState => exact ih (by simpa using member) _ _
    | valueCmp other => exact ih (by simpa using member) _ _

private theorem parseFilters_eq {filters : List (RpcFilterType Memcmp)}
    (decodes : ∀ memcmp, .memcmp memcmp ∈ filters → library.bytes memcmp ≠ none)
    (pairs : List (U64 × U64)) (size : Option U64) :
    parseFilters library filters pairs size =
      some (pairs ++ filters.filterMap (memcmpPair library), (filters.filterMap sizeOf).getLast?.or size) := by
  induction filters generalizing pairs size with
  | nil => simp [parseFilters]
  | cons filter filters ih =>
    have later : ∀ memcmp, .memcmp memcmp ∈ filters → library.bytes memcmp ≠ none :=
      fun memcmp member => decodes memcmp (List.mem_cons_of_mem _ member)
    cases filter with
    | memcmp memcmp =>
      obtain ⟨bytes, read⟩ := Option.ne_none_iff_exists'.mp (decodes memcmp (List.mem_cons_self ..))
      simp [parseFilters, read, ih later, memcmpPair, memcmpValue, sizeOf]
    | dataSize other =>
      rw [parseFilters, ih later]
      simp only [memcmpPair, memcmpValue, sizeOf, List.filterMap_cons, Option.map_none, List.getLast?_cons,
        Option.some_or]
      cases (filters.filterMap sizeOf).getLast? <;> rfl
    | tokenAccountState => simp [parseFilters, ih later, memcmpPair, memcmpValue, sizeOf, List.filterMap_cons]
    | valueCmp other => simp [parseFilters, ih later, memcmpPair, memcmpValue, sizeOf, List.filterMap_cons]

theorem mem_sizes (filters : List (RpcFilterType Memcmp)) (size : U64) :
    size ∈ filters.filterMap sizeOf ↔ .dataSize size ∈ filters := by
  rw [List.mem_filterMap]
  constructor
  · rintro ⟨filter, member, found⟩
    cases filter with
    | dataSize other =>
      obtain rfl := Option.some.inj found
      exact member
    | memcmp other | valueCmp other => cases found
    | tokenAccountState => cases found
  · exact fun member => ⟨_, member, rfl⟩

/-- The last size of a list depends only on which sizes occur, when they are all one. -/
theorem getLast?_congr {sizes sizes' : List U64} (same : ∀ size, size ∈ sizes ↔ size ∈ sizes')
    (one : ∀ first ∈ sizes, ∀ second ∈ sizes, first = second) : sizes.getLast? = sizes'.getLast? := by
  rcases last : sizes.getLast? with - | size
  · rw [List.getLast?_eq_none_iff] at last
    subst last
    have empty : sizes' = [] := List.eq_nil_iff_forall_not_mem.mpr
      fun size member => absurd ((same size).mpr member) (by simp)
    rw [empty]
    rfl
  · have member := List.mem_of_getLast? last
    rcases last' : sizes'.getLast? with - | size'
    · rw [List.getLast?_eq_none_iff] at last'
      subst last'
      exact absurd ((same size).mp member) (by simp)
    · rw [one size member size' ((same size').mpr (List.mem_of_getLast? last'))]

theorem parse_of_rejected {program : Pubkey} {filters : List (RpcFilterType Memcmp)}
    (rejected : Rejected library program filters) : parse library program (some ⟨some filters⟩) = none := by
  rw [parse]
  split
  · rfl
  · next notToken =>
    rcases rejected with token | ⟨memcmp, member, undecodable⟩
    · exact absurd token notToken
    · simp [parseFilters_rejects library member undecodable]

theorem parse_of_accepted {program : Pubkey} {filters : List (RpcFilterType Memcmp)}
    (accepted : ¬ Rejected library program filters) :
    parse library program (some ⟨some filters⟩) =
      if (filters.filterMap (memcmpPair library)).isEmpty && (filters.filterMap sizeOf).getLast?.isNone then
        none
      else
        some ⟨program, dedup ((filters.filterMap (memcmpPair library)).insertionSort PairLe),
          (filters.filterMap sizeOf).getLast?⟩ := by
  rw [Rejected, not_or] at accepted
  have decodes : ∀ memcmp, .memcmp memcmp ∈ filters → library.bytes memcmp ≠ none :=
    fun memcmp member undecodable => accepted.2 ⟨memcmp, member, undecodable⟩
  simp [parse, accepted.1, parseFilters_eq library decodes]

theorem rejected_congr {program : Pubkey} {filters filters' : List (RpcFilterType Memcmp)}
    (same : ∀ filter, filter ∈ filters' ↔ filter ∈ filters) :
    Rejected library program filters' ↔ Rejected library program filters := by
  simp only [Rejected, same]

private theorem isEmpty_congr {α : Type} {items items' : List α} (same : ∀ item, item ∈ items ↔ item ∈ items') :
    items.isEmpty = items'.isEmpty := by
  rw [Bool.eq_iff_iff, List.isEmpty_iff, List.isEmpty_iff, List.eq_nil_iff_forall_not_mem,
    List.eq_nil_iff_forall_not_mem]
  simp only [same]

/-- With one size, the parse of a request depends on the set of its filters only. -/
theorem parse_congr {program : Pubkey} {filters filters' : List (RpcFilterType Memcmp)}
    (same : ∀ filter, filter ∈ filters' ↔ filter ∈ filters) (oneSize : OneSize filters) :
    parse library program (some ⟨some filters'⟩) = parse library program (some ⟨some filters⟩) := by
  rcases Classical.em (Rejected library program filters) with rejected | accepted
  · rw [parse_of_rejected library rejected,
      parse_of_rejected library ((rejected_congr library same).mpr rejected)]
  · rw [parse_of_accepted library accepted,
      parse_of_accepted library (fun rejected => accepted ((rejected_congr library same).mp rejected))]
    have pairs : ∀ pair, pair ∈ filters'.filterMap (memcmpPair library) ↔
        pair ∈ filters.filterMap (memcmpPair library) := fun pair => by
      simp only [List.mem_filterMap, same]
    have sizes : (filters'.filterMap sizeOf).getLast? = (filters.filterMap sizeOf).getLast? := by
      apply getLast?_congr
      · exact fun size => by rw [mem_sizes, mem_sizes, same]
      · intro first member second member'
        rw [mem_sizes, same] at member member'
        exact oneSize first second member member'
    rw [sizes, dedup_insertionSort_congr pairs, isEmpty_congr pairs]

/-- A size filter can be moved to the end of a request. -/
theorem exists_perm_last {filters : List (RpcFilterType Memcmp)} {size : U64}
    (member : .dataSize size ∈ filters) :
    ∃ filters' : List (RpcFilterType Memcmp), filters'.Perm filters ∧ (filters'.filterMap sizeOf).getLast? = some size := by
  obtain ⟨before, rest, rfl⟩ := List.append_of_mem member
  refine ⟨before ++ rest ++ [.dataSize size], ?_, ?_⟩
  · rw [List.append_assoc]
    exact List.Perm.append_left before (List.perm_append_singleton _ _)
  · rw [List.filterMap_append]
    simp [sizeOf]

private theorem datasize_of_last {program : Pubkey} {filters filters' : List (RpcFilterType Memcmp)} {size : U64}
    (accepted : ¬ Rejected library program filters) (perm : filters'.Perm filters)
    (last : (filters'.filterMap sizeOf).getLast? = some size) :
    (parse library program (some ⟨some filters'⟩)).map (fun identity => identity.filter.datasize) =
      some (some size) := by
  have accepted' : ¬ Rejected library program filters' :=
    fun rejected => accepted ((rejected_congr library (fun _ => perm.mem_iff)).mp rejected)
  rw [parse_of_accepted library accepted', last]
  simp

/-- Parsing is blind to order and repetition exactly for requests that are rejected anyway or that ask
for one size. -/
theorem parse_invariant_iff (program : Pubkey) (filters : List (RpcFilterType Memcmp)) :
    (∀ filters', Rearranged filters filters' →
      parse library program (some ⟨some filters'⟩) = parse library program (some ⟨some filters⟩)) ↔
    Rejected library program filters ∨ OneSize filters := by
  constructor
  · intro invariant
    rcases Classical.em (Rejected library program filters) with rejected | accepted
    · exact Or.inl rejected
    · right
      intro first second member member'
      obtain ⟨ends, perm, last⟩ := exists_perm_last member
      obtain ⟨ends', perm', last'⟩ := exists_perm_last member'
      have parsed := datasize_of_last library accepted perm last
      have parsed' := datasize_of_last library accepted perm' last'
      rw [invariant ends (Rearranged.of_perm perm)] at parsed
      rw [invariant ends' (Rearranged.of_perm perm'), parsed] at parsed'
      exact Option.some.inj (Option.some.inj parsed')
  · rintro (rejected | oneSize) filters' rearranged
    · rw [parse_of_rejected library rejected,
        parse_of_rejected library ((rejected_congr library rearranged.mem_iff).mpr rejected)]
    · exact parse_congr library rearranged.mem_iff oneSize

/-! ## Fingerprints -/

private theorem sortedValues_of_noValues {filters : List (RpcFilterType Memcmp)} (noValues : NoValues library filters) :
    sortedValues library filters = [] := by
  have empty : filters.filterMap (memcmpValue library) = [] := by
    rw [List.filterMap_eq_nil_iff]
    intro filter member
    cases filter with
    | memcmp memcmp => rw [memcmpValue, noValues memcmp member, Option.map_none]
    | dataSize _ | valueCmp _ => rfl
    | tokenAccountState => rfl
  rw [sortedValues, empty]
  rfl

private theorem perm_sortedValues (filters : List (RpcFilterType Memcmp)) :
    (sortedValues library filters).Perm (filters.filterMap (memcmpValue library)) :=
  List.perm_insertionSort _ _

private theorem length_valueBytes (filters : List (RpcFilterType Memcmp)) :
    (valueBytes library filters).length =
      ((filters.filterMap (memcmpValue library)).map fun value => 8 + value.2.val.length).sum := by
  rw [← ((perm_sortedValues library filters).map _).sum_eq, valueBytes, List.length_flatMap]
  simp

private theorem sortedValues_ne_nil {filters : List (RpcFilterType Memcmp)} (values : ¬ NoValues library filters) :
    sortedValues library filters ≠ [] := by
  rw [NoValues] at values
  push Not at values
  obtain ⟨memcmp, member, decodes⟩ := values
  obtain ⟨bytes, read⟩ := Option.ne_none_iff_exists'.mp decodes
  have listed : (library.offset memcmp, bytes) ∈ sortedValues library filters := by
    rw [(perm_sortedValues library filters).mem_iff, List.mem_filterMap]
    exact ⟨_, member, by rw [memcmpValue, read]; rfl⟩
  exact List.ne_nil_of_mem listed

/-- Every byte filter writes at least its offset. -/
theorem valueBytes_ne_nil {filters : List (RpcFilterType Memcmp)} (values : ¬ NoValues library filters) :
    0 < (valueBytes library filters).length := by
  obtain ⟨value, rest, split⟩ := List.exists_cons_of_ne_nil (sortedValues_ne_nil library values)
  rw [valueBytes, split, List.flatMap_cons, List.length_append, List.length_append, LittleEndian.length_toBytes]
  omega

private theorem valueFingerprint_none {blake3 : List UInt8 → Digest} {filters : List (RpcFilterType Memcmp)}
    (noValues : NoValues library filters) : valueFingerprint library blake3 (some ⟨some filters⟩) = none := by
  simp [valueFingerprint, sortedValues_of_noValues library noValues]

private theorem valueFingerprint_some {blake3 : List UInt8 → Digest} {filters : List (RpcFilterType Memcmp)}
    (values : ¬ NoValues library filters) :
    valueFingerprint library blake3 (some ⟨some filters⟩) =
      some (firstWord (blake3 (valueBytes library filters))) := by
  simp [valueFingerprint, sortedValues_ne_nil library values]

/-- Repeating every byte filter doubles the hashed bytes, so the fingerprint is blind to order and
repetition exactly when there is nothing to hash. -/
theorem fingerprint_invariant_iff (blake3 : List UInt8 → Digest) (filters : List (RpcFilterType Memcmp))
    (collisionFree : firstWord (blake3 (valueBytes library (filters ++ filters))) =
      firstWord (blake3 (valueBytes library filters)) →
        valueBytes library (filters ++ filters) = valueBytes library filters) :
    (∀ filters', Rearranged filters filters' → valueFingerprint library blake3 (some ⟨some filters'⟩) =
      valueFingerprint library blake3 (some ⟨some filters⟩)) ↔ NoValues library filters := by
  constructor
  · intro invariant
    by_contra values
    have twice := Rearranged.twice filters
    have values' : ¬ NoValues library (filters ++ filters) := fun noValues =>
      values (fun memcmp member => noValues memcmp ((twice.mem_iff _).mpr member))
    have same := invariant _ twice
    rw [valueFingerprint_some library values, valueFingerprint_some library values'] at same
    have lengths := congrArg List.length (collisionFree (Option.some.inj same))
    have positive := valueBytes_ne_nil library values
    rw [length_valueBytes] at lengths positive
    rw [length_valueBytes, List.filterMap_append, List.map_append, List.sum_append] at lengths
    omega
  · intro noValues filters' rearranged
    have noValues' : NoValues library filters' := fun memcmp member =>
      noValues memcmp ((rearranged.mem_iff _).mp member)
    rw [valueFingerprint_none library noValues, valueFingerprint_none library noValues']

end IndexIdentity

/-- A request has the identity and the fingerprint of all its reorderings and repetitions exactly when it
is rejected anyway or asks for one size, and has no byte filter that decodes. -/
theorem identity_invariant_iff (library : MemcmpLibrary Memcmp) (blake3 : List UInt8 → Digest)
    (program : Pubkey) (filters : List (RpcFilterType Memcmp))
    (collisionFree : IndexIdentity.firstWord (blake3 (IndexIdentity.valueBytes library (filters ++ filters))) =
      IndexIdentity.firstWord (blake3 (IndexIdentity.valueBytes library filters)) →
        IndexIdentity.valueBytes library (filters ++ filters) = IndexIdentity.valueBytes library filters) :
    (∀ filters', Rearranged filters filters' →
      IndexIdentity.parse library program (some ⟨some filters'⟩) =
        IndexIdentity.parse library program (some ⟨some filters⟩) ∧
      IndexIdentity.valueFingerprint library blake3 (some ⟨some filters'⟩) =
        IndexIdentity.valueFingerprint library blake3 (some ⟨some filters⟩)) ↔
    (Rejected library program filters ∨ OneSize filters) ∧ NoValues library filters := by
  rw [← IndexIdentity.parse_invariant_iff,
    ← IndexIdentity.fingerprint_invariant_iff library blake3 filters collisionFree]
  constructor
  · exact fun both => ⟨fun filters' rearranged => (both filters' rearranged).1,
      fun filters' rearranged => (both filters' rearranged).2⟩
  · exact fun both filters' rearranged => ⟨both.1 filters' rearranged, both.2 filters' rearranged⟩

/-- A client library whose byte filters are an offset and the bytes themselves. -/
def plainLibrary : MemcmpLibrary (U64 × Slice) := ⟨Prod.fst, fun memcmp => some memcmp.2⟩

/-- The digest of no bytes. -/
def emptyDigest : Digest :=
  ⟨[0xaf, 0x13, 0x49, 0xb9, 0xf5, 0xf9, 0xa1, 0xa6, 0xa0, 0x40, 0x4d, 0xea, 0x36, 0xdc, 0xc9, 0x49,
    0x9b, 0xcb, 0x25, 0xc9, 0xad, 0xc1, 0x12, 0xb7, 0xcc, 0x9a, 0x93, 0xca, 0xe4, 0x1f, 0x32, 0x62], rfl⟩

/-- A request by size keeps its identity and its missing fingerprint when its filters are swapped and the size is
repeated. -/
theorem identity_invariant_by_size :
    IndexIdentity.parse plainLibrary 1 (some ⟨some [.tokenAccountState, .dataSize 165, .dataSize 165]⟩) =
      IndexIdentity.parse plainLibrary 1 (some ⟨some [.dataSize 165, .tokenAccountState]⟩) ∧
    IndexIdentity.valueFingerprint plainLibrary (fun _ => emptyDigest)
        (some ⟨some [.tokenAccountState, .dataSize 165, .dataSize 165]⟩) =
      IndexIdentity.valueFingerprint plainLibrary (fun _ => emptyDigest)
        (some ⟨some [.dataSize 165, .tokenAccountState]⟩) := by
  refine (identity_invariant_iff plainLibrary (fun _ => emptyDigest) 1 [.dataSize 165, .tokenAccountState]
    (fun _ => rfl)).mpr ⟨Or.inr ?_, ?_⟩ _ ⟨[.dataSize 165], by simp, ?_⟩
  · intro first second member member'
    simp only [List.mem_cons, RpcFilterType.dataSize.injEq, List.not_mem_nil, or_false, reduceCtorEq]
      at member member'
    rw [member, member']
  · intro memcmp member
    simp at member
  · exact List.Perm.swap _ _ [RpcFilterType.dataSize 165]

/-- Of two size filters the later one counts, so swapping them changes the identity. -/
theorem swapped_sizes_are_two_patterns :
    ¬ ∀ (blake3 : List UInt8 → Digest) (program : Pubkey) (filters filters' : List (RpcFilterType (U64 × Slice))),
      Rearranged filters filters' →
        IndexIdentity.parse plainLibrary program (some ⟨some filters'⟩) =
          IndexIdentity.parse plainLibrary program (some ⟨some filters⟩) ∧
        IndexIdentity.valueFingerprint plainLibrary blake3 (some ⟨some filters'⟩) =
          IndexIdentity.valueFingerprint plainLibrary blake3 (some ⟨some filters⟩) := by
  intro invariant
  have same := (invariant (fun _ => emptyDigest) 1 [.dataSize 82, .dataSize 165] [.dataSize 165, .dataSize 82]
    (Rearranged.of_perm (List.Perm.swap _ _ []))).1
  revert same
  decide +kernel

/-- Two byte filters at one offset are hashed in the order of the request. -/
example : IndexIdentity.valueBytes plainLibrary [.memcmp (0, ⟨[1], by decide⟩), .memcmp (0, ⟨[2], by decide⟩)] ≠
    IndexIdentity.valueBytes plainLibrary [.memcmp (0, ⟨[2], by decide⟩), .memcmp (0, ⟨[1], by decide⟩)] := by
  decide +kernel

end Cloudbreak.Model.Filters
