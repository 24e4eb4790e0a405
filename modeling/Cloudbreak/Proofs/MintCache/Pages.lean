import Cloudbreak.Proofs.MintCache.TableReads

/-! # The rows of a page and of a reload -/

namespace Cloudbreak.Model.MintCache

open Cloudbreak.ToMathlib
open ConfirmedChain (told_changed)

variable {table : HashMap Pubkey MintRow} {row last : MintRow} {key from_ : Pubkey} {after : ℕ}

/-- The keys of a page. -/
def pageKeys (table : HashMap Pubkey MintRow) (after : Pubkey) : List Pubkey :=
  ((table.keys.filter fun key => decide (after < key)).insertionSort (· ≤ ·)).take loadPage

theorem sorted_pageKeys (table : HashMap Pubkey MintRow) (after : Pubkey) :
    ((table.keys.filter fun key => decide (after < key)).insertionSort (· ≤ ·)).Pairwise (· < ·) := by
  have permuted := List.perm_insertionSort (· ≤ ·) (table.keys.filter fun key => decide (after < key))
  have distinct := permuted.nodup_iff.mpr (table.keys_nodup.filter _)
  exact ((List.pairwise_insertionSort (· ≤ ·) _).and distinct).imp fun both => lt_of_le_of_ne both.1 both.2

theorem mem_sorted_iff : key ∈ (table.keys.filter fun key => decide (from_ < key)).insertionSort (· ≤ ·) ↔
    key ∈ table ∧ from_ < key := by
  rw [(List.perm_insertionSort _ _).mem_iff, List.mem_filter, decide_eq_true_iff, ← AList.mem_keys]

theorem mem_pageKeys (member : key ∈ pageKeys table from_) : key ∈ table ∧ from_ < key :=
  mem_sorted_iff.mp (List.mem_of_mem_take member)

/-- A page leaves out no key up to its last one. -/
theorem mem_pageKeys_of_le {final : Pubkey} (isLast : (pageKeys table from_).getLast? = some final) (held : key ∈ table)
    (above : from_ < key) (upTo : key ≤ final) : key ∈ pageKeys table from_ := by
  have member := mem_sorted_iff.mpr ⟨held, above⟩
  rw [← List.take_append_drop loadPage ((table.keys.filter _).insertionSort _)] at member
  rcases List.mem_append.mp member with inside | rest
  · exact inside
  · have sorted := sorted_pageKeys table from_
    rw [← List.take_append_drop loadPage ((table.keys.filter _).insertionSort _), List.pairwise_append] at sorted
    exact absurd upTo (not_le.mpr (sorted.2.2 final (List.mem_of_getLast? isLast) key rest))

/-- An empty page is the end. -/
theorem not_mem_of_pageKeys_nil (empty : pageKeys table from_ = []) (above : from_ < key) : key ∉ table := by
  intro held
  have member := mem_sorted_iff.mpr ⟨held, above⟩
  rcases List.take_eq_nil_iff.mp empty with isZero | none_
  · exact absurd isZero (by decide)
  · rw [none_] at member
    contradiction

section Keyed

variable (keyed : ∀ key row, table.lookup key = some row → row.pubkey = key)
include keyed

private theorem map_pubkey_filterMap {keys : List Pubkey} (held : ∀ key ∈ keys, key ∈ table) :
    (keys.filterMap table.lookup).map MintRow.pubkey = keys := by
  induction keys with
  | nil => rfl
  | cons key rest ih =>
    obtain ⟨row, isRow⟩ := Option.isSome_iff_exists.mp (AList.lookup_isSome.mpr (held key (List.mem_cons_self ..)))
    simp only [List.filterMap_cons, isRow, List.map_cons]
    rw [keyed key row isRow, ih fun other member => held other (List.mem_cons_of_mem _ member)]

private theorem map_pubkey_readPage : (readPage table from_).map MintRow.pubkey = pageKeys table from_ :=
  map_pubkey_filterMap keyed fun _ member => (mem_pageKeys member).1

private theorem lookup_of_mem_readPage (member : row ∈ readPage table from_) : table.lookup row.pubkey = some row := by
  obtain ⟨key, _, isRow⟩ := List.mem_filterMap.mp member
  exact (keyed key row isRow).symm ▸ isRow

private theorem mem_readAfter :
    row ∈ readAfter table after ↔ table.lookup row.pubkey = some row ∧ after < row.slot := by
  rw [readAfter, List.mem_filter, HashMap.mem_values, decide_eq_true_iff]
  constructor
  · rintro ⟨⟨key, isRow⟩, later⟩
    exact ⟨(keyed key row isRow).symm ▸ isRow, later⟩
  · rintro ⟨isRow, later⟩
    exact ⟨⟨row.pubkey, isRow⟩, later⟩

private theorem nodup_readAfter : ((readAfter table after).map MintRow.pubkey).Nodup := by
  have isKeys : table.values.map MintRow.pubkey = table.keys := by
    rw [HashMap.values, List.map_map]
    exact List.map_congr_left fun entry member => keyed entry.1 entry.2 (HashMap.lookup_eq_some_iff.mpr member)
  exact List.Nodup.sublist (List.filter_sublist.map MintRow.pubkey) (isKeys ▸ table.keys_nodup)

end Keyed

namespace ConfirmedChain

variable {chain : ConfirmedChain} {store : MintStore} {start known lastDbSlot : ℕ}

/-- A load that has read the keys up to one: these are right at its start slot, the others still missing. -/
structure LoadedTo (chain : ConfirmedChain) (start : ℕ) (store : MintStore) (after : Pubkey) : Prop where
  told : ∀ key ≤ after, chain.Told start key (store.get key)
  missing : ∀ key, after < key → store.get key = .missing

theorem loadedTo_start (chain : ConfirmedChain) (start : ℕ) : chain.LoadedTo start .default 0 where
  told := by
    intro key isFirst
    obtain rfl : key = systemProgramId := le_antisymm isFirst (Fin.zero_le key)
    exact fun slot _ _ state => newest_system state
  missing := fun key _ => MintStore.get_default key

theorem Covers.keyed (covers : chain.Covers lastDbSlot table) :
    ∀ key row, table.lookup key = some row → row.pubkey = key := fun key row isRow => (covers.rows key row isRow).1

/-- The next page. -/
theorem LoadedTo.page (loaded : chain.LoadedTo start store from_) (covers : chain.Covers start table)
    (isLast : (readPage table from_).getLast? = some last) :
    chain.LoadedTo start (store.applyRows (readPage table from_)) last.pubkey := by
  have isKeys : (readPage table from_).map MintRow.pubkey = pageKeys table from_ := map_pubkey_readPage covers.keyed
  have distinct : ((readPage table from_).map MintRow.pubkey).Nodup :=
    isKeys ▸ ((sorted_pageKeys table from_).imp ne_of_lt).sublist (List.take_sublist _ _)
  have isFinal : (pageKeys table from_).getLast? = some last.pubkey := by
    rw [← isKeys, List.getLast?_map, isLast]
    rfl
  have notRead : ∀ key, key ∉ pageKeys table from_ → (store.applyRows (readPage table from_)).get key = store.get key :=
    fun key absent => MintStore.get_applyRows_of_not_mem store (isKeys.symm ▸ absent)
  constructor
  case told =>
    intro key upTo
    by_cases read : key ∈ pageKeys table from_
    · obtain ⟨row, member, rfl⟩ := List.mem_map.mp (isKeys.symm ▸ read)
      have isRow := lookup_of_mem_readPage covers.keyed member
      rw [MintStore.get_applyRows_of_mem store distinct member, loaded.missing _ (mem_pageKeys read).2,
        StoredMint.applyRow_eq, if_pos rfl]
      exact told_changed (covers.rows _ row isRow).2
    · rw [notRead key read]
      by_cases early : key ≤ from_
      · exact loaded.told key early
      · have above := lt_of_not_ge early
        rw [loaded.missing key above]
        have isAbsent : key ∉ table := fun held => read (mem_pageKeys_of_le isFinal held above upTo)
        exact covers.absent key (AList.lookup_eq_none.mpr isAbsent)
  case missing =>
    intro key above
    have later : from_ < key := (mem_pageKeys (List.mem_of_getLast? isFinal)).2.trans above
    rw [notRead key fun read => ?_]
    · exact loaded.missing key later
    · have below : key ≤ last.pubkey := by
        obtain ⟨before, whole⟩ := List.getLast?_eq_some_iff.mp isFinal
        have sorted := (sorted_pageKeys table from_).sublist (List.take_sublist loadPage _)
        change (pageKeys table from_).Pairwise (· < ·) at sorted
        rw [whole] at read sorted
        rcases List.mem_append.mp read with early | isLast
        · exact ((List.pairwise_append.mp sorted).2.2 key early _ (List.mem_singleton_self _)).le
        · exact (List.mem_singleton.mp isLast).le
      exact absurd above (not_lt.mpr below)

/-- The empty page ends the load. -/
theorem LoadedTo.end_ (loaded : chain.LoadedTo start store from_) (covers : chain.Covers start table)
    (empty : (readPage table from_).getLast? = none) : ∀ key, chain.Told start key (store.get key) := by
  intro key
  by_cases early : key ≤ from_
  · exact loaded.told key early
  · have above := lt_of_not_ge early
    have noKeys : pageKeys table from_ = [] := by
      rw [← map_pubkey_readPage covers.keyed, List.getLast?_eq_none_iff.mp empty, List.map_nil]
    rw [loaded.missing key above]
    exact covers.absent key (AList.lookup_eq_none.mpr (not_mem_of_pageKeys_nil noKeys above))

/-- A reload of the rows changed after a slot the cache already knew. -/
theorem told_applyRows (told : ∀ key, chain.Told known key (store.get key)) (first : chain.firstDbSlot ≤ known)
    (firstLast : chain.firstDbSlot ≤ lastDbSlot) (covers : chain.Covers lastDbSlot table) (old : after ≤ known)
    (repeats : ∀ row ∈ readAfter table after, ∀ version ∈ (store.get row.pubkey).version,
      version.2 = row.change → chain.Lasts row.pubkey version.1 row.slot version.2) (key : Pubkey) :
    chain.Told (max known lastDbSlot) key ((store.applyRows (readAfter table after)).get key) := by
  by_cases read : key ∈ (readAfter table after).map MintRow.pubkey
  · obtain ⟨row, member, rfl⟩ := List.mem_map.mp read
    have isRow := ((mem_readAfter covers.keyed).mp member).1
    rw [MintStore.get_applyRows_of_mem store (nodup_readAfter covers.keyed) member]
    exact (told row.pubkey).applyRow firstLast (covers.rows _ row isRow).2 (repeats row member)
  · rw [MintStore.get_applyRows_of_not_mem store read]
    refine (told key).unread first covers fun row isRow => ?_
    by_contra later
    obtain rfl := covers.keyed key row isRow
    exact read (List.mem_map_of_mem ((mem_readAfter covers.keyed).mpr ⟨isRow, by omega⟩))

end ConfirmedChain

end Cloudbreak.Model.MintCache
