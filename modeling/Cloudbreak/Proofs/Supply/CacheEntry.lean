import Cloudbreak.Model.Supply.Cache

/-! # The cache seen through one key

Each cache operation reads and writes a single entry, and the sweep and the pins treat every entry
alike. The equations below say what each of them leaves under a key, so the proofs about balances never
mention the map or its counters.
-/

namespace Cloudbreak.Model.Supply

open Cloudbreak.ToMathlib
open NonCirculating (stakeProgramId)

namespace Entry

/-- `writeBack` on the entry of its key. -/
def write (lamports slot : ℕ) (stakeOwned : Bool) (held : Option Entry) : Option Entry :=
  if stakeOwned then none
  else
    match held with
    | some entry => some (if slot ≥ entry.slot then { entry with lamports, slot } else entry)
    | none => some ⟨lamports, slot, false⟩

/-- `probe` on the entry of its key. -/
def probe (lamports slot : ℕ) (stakeOwned zeroPrev : Bool) (held : Option Entry) : Option Entry × Probe :=
  if zeroPrev then (write lamports slot stakeOwned held, .hit lamports)
  else
    match held with
    | some entry =>
      if entry.slot < slot then (write lamports slot stakeOwned held, .hit (lamports - entry.lamports))
      else (held, .hit 0)
    | none => (none, .miss)

/-- `applyMiss` on the entry of its key. -/
def resolve (lamports slot : ℕ) (stakeOwned : Bool) (held : Option Entry) :
    Option PrevRow → Option Entry × ℤ
  | none => (write lamports slot stakeOwned held, lamports)
  | some prev =>
    if prev.slot < slot then (write lamports slot stakeOwned held, lamports - prev.lamports)
    else (write prev.lamports prev.slot stakeOwned held, 0)

def pin (entry : Entry) : Entry := { entry with pinned := true }

end Entry

namespace HotAccounts

theorem lookup_writeBack (cache : HotAccounts) (pubkey : Pubkey) (lamports slot : ℕ) (owner key : Pubkey) :
    (cache.writeBack pubkey lamports slot owner).map.lookup key =
      if key = pubkey then Entry.write lamports slot (decide (owner = stakeProgramId)) (cache.map.lookup key)
      else cache.map.lookup key := by
  unfold writeBack
  by_cases owned : owner = stakeProgramId
  · rw [if_pos owned, remove, HashMap.lookup_erase]
    simp only [owned, decide_true, Entry.write, if_true]
  · rw [if_neg owned]
    by_cases same : key = pubkey
    · subst same
      simp only [Entry.write, owned, decide_false, Bool.false_eq_true, if_false, if_true]
      cases present : cache.map.lookup key with
      | some entry =>
        dsimp only
        by_cases reached : slot ≥ entry.slot
        · rw [if_pos reached, if_pos reached, HashMap.lookup_insert, if_pos rfl]
        · rw [if_neg reached, if_neg reached, present]
      | none =>
        dsimp only
        rw [HashMap.lookup_insert, if_pos rfl]
    · rw [if_neg same]
      cases present : cache.map.lookup pubkey with
      | some entry =>
        dsimp only
        split
        · rw [HashMap.lookup_insert, if_neg same]
        · rfl
      | none =>
        dsimp only
        rw [HashMap.lookup_insert, if_neg same]

theorem lookup_probe (cache : HotAccounts) (pubkey : Pubkey) (lamports slot : ℕ) (owner : Pubkey)
    (zeroPrev : Bool) (key : Pubkey) :
    (cache.probe pubkey lamports slot owner zeroPrev).1.map.lookup key =
      if key = pubkey then
        (Entry.probe lamports slot (decide (owner = stakeProgramId)) zeroPrev (cache.map.lookup key)).1
      else cache.map.lookup key := by
  unfold probe Entry.probe
  cases zeroPrev with
  | true => exact lookup_writeBack ..
  | false =>
    cases present : cache.map.lookup pubkey with
    | none =>
      simp only [Bool.false_eq_true, if_false]
      split
      · next same => subst same; simp only [present]
      · rfl
    | some entry =>
      simp only [Bool.false_eq_true, if_false]
      by_cases fresh : entry.slot < slot
      · rw [if_pos fresh, lookup_writeBack]
        split
        · next same => subst same; simp only [present, if_pos fresh]
        · rfl
      · rw [if_neg fresh]
        split
        · next same => subst same; simp only [present, if_neg fresh]
        · rfl

theorem probe_snd (cache : HotAccounts) (pubkey : Pubkey) (lamports slot : ℕ) (owner : Pubkey)
    (zeroPrev : Bool) :
    (cache.probe pubkey lamports slot owner zeroPrev).2 =
      (Entry.probe lamports slot (decide (owner = stakeProgramId)) zeroPrev (cache.map.lookup pubkey)).2 := by
  unfold probe Entry.probe
  cases zeroPrev with
  | true => rfl
  | false =>
    cases cache.map.lookup pubkey with
    | none => rfl
    | some entry =>
      simp only [Bool.false_eq_true, if_false]
      split <;> rfl

theorem lookup_applyMiss (cache : HotAccounts) (pubkey : Pubkey) (lamports slot : ℕ) (owner : Pubkey)
    (prev : Option PrevRow) (key : Pubkey) :
    (cache.applyMiss pubkey lamports slot owner prev).1.map.lookup key =
      if key = pubkey then
        (Entry.resolve lamports slot (decide (owner = stakeProgramId)) (cache.map.lookup key) prev).1
      else cache.map.lookup key := by
  unfold applyMiss Entry.resolve
  cases prev with
  | none => exact lookup_writeBack ..
  | some prev =>
    dsimp only
    split
    · exact lookup_writeBack ..
    · exact lookup_writeBack ..

theorem applyMiss_snd (cache : HotAccounts) (pubkey : Pubkey) (lamports slot : ℕ) (owner : Pubkey)
    (prev : Option PrevRow) :
    (cache.applyMiss pubkey lamports slot owner prev).2 =
      (Entry.resolve lamports slot (decide (owner = stakeProgramId)) (cache.map.lookup pubkey) prev).2 := by
  unfold applyMiss Entry.resolve
  cases prev with
  | none => rfl
  | some prev =>
    dsimp only
    split <;> rfl

/-- A sweep drops some unpinned entries and changes no other. -/
theorem lookup_sweep {cache swept : HotAccounts} {slot evicted : ℕ}
    (ran : cache.sweep slot = some (swept, evicted)) (key : Pubkey) :
    swept.map.lookup key = cache.map.lookup key ∨
      swept.map.lookup key = none ∧ ∃ entry, cache.map.lookup key = some entry ∧ entry.pinned = false := by
  unfold sweep at ran
  dsimp only at ran
  split at ran
  · cases ran; exact Or.inl rfl
  · obtain ⟨cutoff, _, kept⟩ := Option.map_eq_some_iff.mp ran
    cases kept
    rw [HashMap.lookup_retain]
    cases present : cache.map.lookup key with
    | none => exact Or.inl rfl
    | some entry =>
      rw [Option.filter_some]
      split
      · exact Or.inl rfl
      · next dropped =>
        refine Or.inr ⟨rfl, entry, rfl, ?_⟩
        rw [Bool.or_eq_true, not_or] at dropped
        exact Bool.not_eq_true _ ▸ dropped.1

private theorem lookup_foldl_pin (pubkeys : List Pubkey) (map : HashMap Pubkey Entry) (key : Pubkey) :
    (pubkeys.foldl
      (fun map pubkey =>
        match map.lookup pubkey with
        | some entry => map.insert pubkey { entry with pinned := true }
        | none => map) map).lookup key =
      if key ∈ pubkeys then (map.lookup key).map Entry.pin else map.lookup key := by
  induction pubkeys generalizing map with
  | nil => simp
  | cons first rest ih =>
    have one : ((match map.lookup first with
        | some entry => map.insert first { entry with pinned := true }
        | none => map) : HashMap Pubkey Entry).lookup key =
          if key = first then (map.lookup key).map Entry.pin else map.lookup key := by
      split
      · next entry present =>
        rw [HashMap.lookup_insert]
        split
        · next same => rw [same, present]; rfl
        · rfl
      · next absent =>
        split
        · next same => rw [same, absent]; rfl
        · rfl
    rw [List.foldl_cons, ih, one]
    have twice : (Entry.pin ∘ Entry.pin) = Entry.pin := rfl
    by_cases same : key = first
    · subst same
      by_cases inside : key ∈ rest <;> simp [inside, twice]
    · by_cases inside : key ∈ rest <;> simp [same, inside]

/-- A pin changes nothing but the flag, under the touched keys. -/
theorem lookup_pinFailed {cache pinned : HotAccounts} {pubkeys : List Pubkey}
    (accepted : cache.pinFailed pubkeys = some pinned) (key : Pubkey) :
    pinned.map.lookup key =
      if key ∈ pubkeys then (cache.map.lookup key).map Entry.pin else cache.map.lookup key := by
  unfold pinFailed at accepted
  dsimp only at accepted
  split at accepted
  · contradiction
  · cases accepted
    exact lookup_foldl_pin pubkeys cache.map key

end HotAccounts

end Cloudbreak.Model.Supply
