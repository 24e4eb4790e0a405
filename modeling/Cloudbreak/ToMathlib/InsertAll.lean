import Cloudbreak.ToMathlib.HashMap

/-! # Inserting a list of entries into a map

With distinct keys the order of the inserts does not matter: a key of the list finds its item, and every
other key what the map held before. Sums over two maps compare entry by entry.
-/

namespace Cloudbreak.ToMathlib.HashMap

variable {ι κ α : Type} [DecidableEq κ]

/-- Inserts the items one after another. -/
def insertAll (key : ι → κ) (value : ι → α) (map : HashMap κ α) (items : List ι) : HashMap κ α :=
  items.foldl (fun map item => map.insert (key item) (value item)) map

theorem lookup_insertAll_of_not_mem {key : ι → κ} {value : ι → α} {map : HashMap κ α} {items : List ι} {other : κ}
    (absent : other ∉ items.map key) : (insertAll key value map items).lookup other = map.lookup other := by
  induction items generalizing map with
  | nil => rfl
  | cons item items ih =>
    rw [List.map_cons, List.mem_cons, not_or] at absent
    rw [insertAll, List.foldl_cons, ← insertAll, ih absent.2, lookup_insert, if_neg absent.1]

theorem lookup_insertAll_of_mem {key : ι → κ} {value : ι → α} {map : HashMap κ α} {items : List ι}
    (distinct : (items.map key).Nodup) {item : ι} (member : item ∈ items) :
    (insertAll key value map items).lookup (key item) = some (value item) := by
  induction items generalizing map with
  | nil => exact absurd member (by simp)
  | cons first items ih =>
    rw [List.map_cons, List.nodup_cons] at distinct
    rw [insertAll, List.foldl_cons, ← insertAll]
    rcases List.mem_cons.mp member with rfl | member
    · rw [lookup_insertAll_of_not_mem distinct.1, lookup_insert, if_pos rfl]
    · exact ih distinct.2 member

theorem lookup_insertAll {key : ι → κ} {value : ι → α} {items : List ι} (distinct : (items.map key).Nodup)
    (other : κ) (found : α) :
    (insertAll key value ∅ items).lookup other = some found ↔
      ∃ item ∈ items, key item = other ∧ value item = found := by
  rcases Classical.em (other ∈ items.map key) with present | absent
  · obtain ⟨item, member, rfl⟩ := List.mem_map.mp present
    rw [lookup_insertAll_of_mem distinct member, Option.some.injEq]
    constructor
    · rintro rfl
      exact ⟨item, member, rfl, rfl⟩
    · rintro ⟨item', member', same, rfl⟩
      rw [List.inj_on_of_nodup_map distinct member' member same]
  · rw [lookup_insertAll_of_not_mem absent, lookup_empty]
    simp only [reduceCtorEq, false_iff]
    rintro ⟨item, member, rfl, -⟩
    exact absent (List.mem_map_of_mem member)

theorem sum_congr [Fintype κ] {value : κ → α → ℕ} {first second : HashMap κ α}
    (same : ∀ key, first.lookup key = second.lookup key) : sum value first = sum value second := by
  rw [sum_eq_univ, sum_eq_univ]
  exact Finset.sum_congr rfl fun key _ => by rw [same key]

/-- A map that extends another has the same sum exactly when its further entries count nothing. -/
theorem sum_eq_sum_iff [Fintype κ] {value : κ → α → ℕ} {first second : HashMap κ α}
    (extends_first : ∀ key item, first.lookup key = some item → second.lookup key = some item) :
    sum value first = sum value second ↔
      ∀ key item, second.lookup key = some item → first.lookup key = none → value key item = 0 := by
  have below : ∀ key ∈ Finset.univ (α := κ),
      (first.lookup key).elim 0 (value key) ≤ (second.lookup key).elim 0 (value key) := by
    intro key _
    cases found : first.lookup key with
    | none => exact Nat.zero_le _
    | some item => rw [extends_first key item found]
  rw [sum_eq_univ, sum_eq_univ, Finset.sum_eq_sum_iff_of_le below]
  constructor
  · intro same key item present missing
    have equal := same key (Finset.mem_univ key)
    rw [present, missing] at equal
    exact equal.symm
  · intro further key _
    cases found : first.lookup key with
    | some item => rw [extends_first key item found]
    | none =>
      cases present : second.lookup key with
      | none => rfl
      | some item => exact (further key item present found).symm

end Cloudbreak.ToMathlib.HashMap
