import Mathlib

/-! # Finite maps with a lookup equation for every operation

A hash map is an association list without duplicate keys. Mathlib states the lookups of an
insertion and of a removal in two cases each; the single equations here rewrite either case, and
`retain` adds the filtering that a map of plain values allows. Nothing depends on the order of the
entries except `entries` itself, so a caller that iterates must say which order it takes.
-/

namespace Cloudbreak.ToMathlib

/-- A finite map from keys to values of one type. -/
abbrev HashMap (κ α : Type) := AList fun _ : κ => α

namespace HashMap

variable {κ α : Type} [DecidableEq κ]

theorem lookup_insert (key other : κ) (value : α) (map : HashMap κ α) :
    (map.insert key value).lookup other = if other = key then some value else map.lookup other := by
  split
  · next same => subst same; exact AList.lookup_insert map
  · next differ => exact AList.lookup_insert_ne differ

theorem lookup_erase (key other : κ) (map : HashMap κ α) :
    (map.erase key).lookup other = if other = key then none else map.lookup other := by
  split
  · next same => subst same; exact AList.lookup_erase _ map
  · next differ => exact AList.lookup_erase_ne differ

@[simp] theorem lookup_empty (key : κ) : (∅ : HashMap κ α).lookup key = none := AList.lookup_empty key

theorem lookup_eq_some_iff {key : κ} {value : α} {map : HashMap κ α} :
    map.lookup key = some value ↔ ⟨key, value⟩ ∈ map.entries :=
  AList.mem_lookup_iff

/-- Keeps the entries that satisfy a predicate of the key and the value. -/
def retain (keep : κ → α → Bool) (map : HashMap κ α) : HashMap κ α where
  entries := map.entries.filter fun entry => keep entry.1 entry.2
  nodupKeys := by
    have distinct := map.nodupKeys
    rw [List.nodupKeys_iff_pairwise] at distinct ⊢
    exact distinct.filter _

theorem lookup_retain (keep : κ → α → Bool) (map : HashMap κ α) (key : κ) :
    (map.retain keep).lookup key = (map.lookup key).filter (keep key) := by
  apply Option.ext
  intro value
  rw [Option.filter_eq_some_iff, lookup_eq_some_iff, lookup_eq_some_iff]
  exact List.mem_filter

/-- The values in the order of the entries. -/
def values (map : HashMap κ α) : List α := map.entries.map fun entry => entry.2

theorem mem_values {value : α} {map : HashMap κ α} :
    value ∈ map.values ↔ ∃ key, map.lookup key = some value := by
  simp only [values, List.mem_map, lookup_eq_some_iff, Sigma.exists]
  constructor
  · rintro ⟨key, _, member, rfl⟩; exact ⟨key, member⟩
  · rintro ⟨key, member⟩; exact ⟨key, value, member, rfl⟩

/-- The entries as pairs. -/
def toList (map : HashMap κ α) : List (κ × α) := map.entries.map fun entry => (entry.1, entry.2)

theorem mem_toList {key : κ} {value : α} {map : HashMap κ α} :
    (key, value) ∈ map.toList ↔ map.lookup key = some value := by
  simp only [toList, List.mem_map, lookup_eq_some_iff, Prod.mk.injEq, Sigma.exists]
  constructor
  · rintro ⟨_, _, member, rfl, rfl⟩; exact member
  · intro member; exact ⟨key, value, member, rfl, rfl⟩

omit [DecidableEq κ] in
theorem map_fst_toList (map : HashMap κ α) : map.toList.map Prod.fst = map.keys := by
  simp only [toList, List.map_map]
  rfl

omit [DecidableEq κ] in
theorem nodup_toList (map : HashMap κ α) : (map.toList.map Prod.fst).Nodup :=
  map_fst_toList map ▸ map.keys_nodup

/-- At most one pair of the list has a given key. -/
theorem filterMap_toList {β : Type} (map : HashMap κ α) (key : κ) (f : α → β) :
    map.toList.filterMap (fun item => if item.1 = key then some (f item.2) else none) =
      ((map.lookup key).map f).toList := by
  obtain ⟨entries, nodupKeys⟩ := map
  change (entries.map fun entry => (entry.1, entry.2)).filterMap _ = ((entries.dlookup key).map f).toList
  induction entries with
  | nil => rfl
  | cons entry rest ih =>
    obtain ⟨fresh, nodupRest⟩ := List.nodupKeys_cons.mp nodupKeys
    rw [List.map_cons, List.filterMap_cons]
    by_cases same : entry.1 = key
    · subst same
      have none_ : rest.dlookup entry.1 = none := List.dlookup_eq_none.mpr fresh
      rw [if_pos rfl, ih nodupRest, none_, List.dlookup_cons_eq]
      rfl
    · rw [if_neg same, ih nodupRest, List.dlookup_cons_ne _ _ fun equal => same equal.symm]

theorem lookup_of_not_mem {key : κ} {map : HashMap κ α} (absent : key ∉ map) :
    map.lookup key = none :=
  AList.lookup_eq_none.mpr absent

/-! ## Sums over the entries -/

/-- The sum of a value of every entry. -/
def sum {M : Type} [AddCommMonoid M] (value : κ → α → M) (map : HashMap κ α) : M :=
  (map.entries.map fun entry => value entry.1 entry.2).sum

section Sum

variable {M : Type}

theorem sum_erase [AddCommMonoid M] (value : κ → α → M) (map : HashMap κ α) (key : κ) :
    (map.lookup key).elim 0 (value key) + sum value (map.erase key) = sum value map := by
  obtain ⟨entries, nodupKeys⟩ := map
  change (entries.dlookup key).elim 0 (value key) +
    ((entries.kerase key).map fun entry => value entry.1 entry.2).sum = (entries.map _).sum
  induction entries with
  | nil => exact zero_add _
  | cons entry rest ih =>
    obtain ⟨-, nodupRest⟩ := List.nodupKeys_cons.mp nodupKeys
    by_cases same : key = entry.1
    · subst same
      rw [List.dlookup_cons_eq, List.kerase_cons_eq rfl, List.map_cons, List.sum_cons]
      rfl
    · rw [List.dlookup_cons_ne _ _ same, List.kerase_cons_ne same, List.map_cons, List.sum_cons, List.map_cons,
        List.sum_cons, add_left_comm, ih nodupRest]

theorem sum_insert_erase [AddCommMonoid M] (value : κ → α → M) (map : HashMap κ α) (key : κ) (item : α) :
    sum value (map.insert key item) = value key item + sum value (map.erase key) := by
  change ((AList.insert key item map).entries.map _).sum = _
  rw [AList.entries_insert, List.map_cons, List.sum_cons]
  rfl

theorem sum_insert [AddCommGroup M] (value : κ → α → M) (map : HashMap κ α) (key : κ) (item : α) :
    sum value (map.insert key item) = sum value map - (map.lookup key).elim 0 (value key) + value key item := by
  rw [sum_insert_erase, ← sum_erase value map key, add_sub_cancel_left, add_comm]

/-- The sum over all keys, where a missing key counts nothing. -/
theorem sum_eq_univ [Fintype κ] [AddCommMonoid M] (value : κ → α → M) (map : HashMap κ α) :
    sum value map = ∑ key, (map.lookup key).elim 0 (value key) := by
  have listed : sum value map = (map.keys.map fun key => (map.lookup key).elim 0 (value key)).sum := by
    rw [sum, AList.keys, List.keys, List.map_map]
    congr 1
    refine List.map_congr_left fun entry member => ?_
    rw [Function.comp_apply, lookup_eq_some_iff.mpr (show ⟨entry.1, entry.2⟩ ∈ map.entries from member)]
    rfl
  rw [listed, ← List.sum_toFinset _ map.keys_nodup]
  refine Finset.sum_subset (Finset.subset_univ _) fun key _ outside => ?_
  rw [List.mem_toFinset] at outside
  rw [lookup_of_not_mem fun member => outside (AList.mem_keys.mp member)]
  rfl

/-- One entry of a sum of nonnegative values is at most the sum. -/
theorem le_sum {value : κ → α → ℤ} {map : HashMap κ α} (nonneg : ∀ key item, 0 ≤ value key item) {key : κ} {item : α}
    (present : map.lookup key = some item) : value key item ≤ sum value map := by
  refine List.single_le_sum (fun number member => ?_) _
    (List.mem_map.mpr ⟨_, lookup_eq_some_iff.mp present, rfl⟩)
  obtain ⟨entry, -, rfl⟩ := List.mem_map.mp member
  exact nonneg _ _

end Sum

end HashMap

end Cloudbreak.ToMathlib
