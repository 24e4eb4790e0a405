import Cloudbreak.ToMathlib.HashMap

/-! # The number of entries of a finite map

An erasure and an insertion change the number of entries by whether the key was there.
-/

namespace Cloudbreak.ToMathlib.HashMap

variable {κ α : Type} [DecidableEq κ] {map : HashMap κ α} {key : κ} {value : α}

theorem size_erase_add_one (present : map.lookup key = some value) :
    (map.erase key).entries.length + 1 = map.entries.length := by
  have member : key ∈ map.keys := AList.lookup_isSome.mp (by rw [present]; rfl)
  have keys : (map.erase key).keys.length = map.keys.length - 1 := by
    rw [AList.keys_erase, List.length_erase_of_mem member]
  have filled : 0 < map.keys.length := List.length_pos_of_mem member
  simp only [AList.keys, List.keys, List.length_map] at keys filled
  omega

theorem size_erase_of_absent (absent : map.lookup key = none) : (map.erase key).entries.length = map.entries.length := by
  have missing : key ∉ map.keys := fun member => by
    have present := AList.lookup_isSome.mpr member
    rw [absent] at present
    contradiction
  have keys : (map.erase key).keys.length = map.keys.length := by
    rw [AList.keys_erase, List.erase_of_not_mem missing]
  simpa only [AList.keys, List.keys, List.length_map] using keys

theorem size_erase_le (map : HashMap κ α) (key : κ) : (map.erase key).entries.length ≤ map.entries.length := by
  cases found : map.lookup key with
  | none => exact (size_erase_of_absent found).le
  | some value =>
    have size := size_erase_add_one found
    omega

theorem size_insert (map : HashMap κ α) (key : κ) (value : α) :
    (map.insert key value).entries.length = (map.erase key).entries.length + 1 := by
  rw [AList.entries_insert, List.length_cons]
  rfl

theorem exists_of_size_pos (filled : 0 < map.entries.length) : ∃ key value, map.lookup key = some value := by
  obtain ⟨entry, member⟩ := List.exists_mem_of_length_pos filled
  exact ⟨entry.1, entry.2, lookup_eq_some_iff.mpr member⟩

end Cloudbreak.ToMathlib.HashMap
