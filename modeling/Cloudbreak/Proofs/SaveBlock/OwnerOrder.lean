import Cloudbreak.Proofs.SaveBlock.GapFill

/-! # Late owner writes

Snapshot versions and repaired slots reach the owner map after newer writes. An entry keeps the slot at
which its owner was first stored, so a later confirmation of that owner does not protect it: an older
write of another owner may still replace it.
-/

namespace Cloudbreak.Model.SaveBlock

/-- One call of `upsert_account`. -/
structure OwnerWrite where
  pubkey : Pubkey
  owner : Pubkey
  slot : ℕ
deriving DecidableEq, Repr

def AccountOwnerMap.upsertAll (ownerMap : AccountOwnerMap) (writes : List OwnerWrite) : AccountOwnerMap :=
  writes.foldl (fun ownerMap write => ownerMap.upsertAccount write.pubkey write.owner write.slot) ownerMap

/-- What one write makes of the entry of its own account. -/
def storeOwner (entry : Option AccountOwnerItem) (write : OwnerWrite) : Option AccountOwnerItem :=
  match entry with
  | none => some ⟨write.owner, write.slot⟩
  | some existing =>
    if existing.owner ≠ write.owner ∧ existing.slot < write.slot then some ⟨write.owner, write.slot⟩
    else some existing

def writesOf (pubkey : Pubkey) (writes : List OwnerWrite) : List OwnerWrite :=
  writes.filter fun write => write.pubkey = pubkey

private theorem upsertAccount_own (ownerMap : AccountOwnerMap) (write : OwnerWrite) :
    (ownerMap.upsertAccount write.pubkey write.owner write.slot).accounts.lookup write.pubkey =
      storeOwner (ownerMap.accounts.lookup write.pubkey) write := by
  rw [upsertAccount_lookup, if_pos rfl, AccountOwnerMap.checkUpdatedAccountOwner]
  cases ownerMap.accounts.lookup write.pubkey with
  | none => rfl
  | some existing => simp [storeOwner]

/-- The entry of an account is a fold over its own writes. -/
theorem lookup_upsertAll (ownerMap : AccountOwnerMap) (pubkey : Pubkey) (writes : List OwnerWrite) :
    (ownerMap.upsertAll writes).accounts.lookup pubkey =
      (writesOf pubkey writes).foldl storeOwner (ownerMap.accounts.lookup pubkey) := by
  induction writes generalizing ownerMap with
  | nil => rfl
  | cons write writes ih =>
    rw [AccountOwnerMap.upsertAll, List.foldl_cons, ← AccountOwnerMap.upsertAll, ih, writesOf, writesOf,
      List.filter_cons]
    split
    · next own =>
      rw [decide_eq_true_eq] at own
      rw [List.foldl_cons, ← own, upsertAccount_own]
    · next other =>
      rw [decide_eq_true_eq] at other
      rw [upsertAccount_lookup, if_neg (fun same => other same.symm)]

/-! ## One account -/

section Entry

variable {owner : Pubkey} {writes : List OwnerWrite}

/-- All writes of an owner are above the writes of every other owner. -/
def StaysAbove (owner : Pubkey) (writes : List OwnerWrite) : Prop :=
  ∀ own ∈ writes, ∀ other ∈ writes, own.owner = owner → other.owner ≠ owner → other.slot < own.slot

/-- The entry was written by one of the writes. -/
def Written (writes : List OwnerWrite) (entry : AccountOwnerItem) : Prop :=
  ∃ write ∈ writes, entry = ⟨write.owner, write.slot⟩

private theorem storeOwner_written {entry : Option AccountOwnerItem} {write : OwnerWrite} (member : write ∈ writes)
    (written : ∀ item, entry = some item → Written writes item) :
    ∃ item, storeOwner entry write = some item ∧ Written writes item := by
  cases entry with
  | none => exact ⟨_, rfl, write, member, rfl⟩
  | some existing =>
    rw [storeOwner]
    split
    · exact ⟨_, rfl, write, member, rfl⟩
    · exact ⟨existing, rfl, written existing rfl⟩

/-- A write of the owner leaves the entry with it, and so does every other write from then on. -/
theorem storeOwner_stays {entry : Option AccountOwnerItem} {write : OwnerWrite} (above : StaysAbove owner writes)
    (member : write ∈ writes) (written : ∀ item, entry = some item → Written writes item)
    (reached : write.owner = owner ∨ ∃ item, entry = some item ∧ item.owner = owner) :
    ∃ item, storeOwner entry write = some item ∧ item.owner = owner := by
  cases entry with
  | none =>
    rcases reached with own | ⟨item, found, -⟩
    · exact ⟨_, rfl, own⟩
    · cases found
  | some existing =>
    obtain ⟨source, known, rfl⟩ := written existing rfl
    rw [storeOwner]
    split
    · next replaced =>
      refine ⟨_, rfl, ?_⟩
      rcases reached with own | ⟨item, found, own⟩
      · exact own
      · obtain rfl := Option.some.inj found
        -- the entry's own write is above the write that would replace it
        by_contra different
        have below := above source known write member own different
        exact absurd replaced.2 (by simpa using below.le)
    · next kept =>
      refine ⟨_, rfl, ?_⟩
      rcases reached with own | ⟨item, found, own⟩
      · by_contra different
        have below := above write member source known own different
        exact kept ⟨fun same => different (same.trans own), below⟩
      · obtain rfl := Option.some.inj found
        exact own

private theorem foldl_storeOwner_stays {entry : Option AccountOwnerItem} {order : List OwnerWrite}
    (above : StaysAbove owner writes) (known : ∀ write ∈ order, write ∈ writes)
    (written : ∀ item, entry = some item → Written writes item)
    (reached : (∃ write ∈ order, write.owner = owner) ∨ ∃ item, entry = some item ∧ item.owner = owner) :
    ∃ item, order.foldl storeOwner entry = some item ∧ item.owner = owner := by
  induction order generalizing entry with
  | nil =>
    rcases reached with ⟨write, member, -⟩ | found
    · exact absurd member (by simp)
    · exact found
  | cons write order ih =>
    have member := known write (List.mem_cons_self ..)
    have later : ∀ item, storeOwner entry write = some item → Written writes item := by
      obtain ⟨item, stored, ofWrites⟩ := storeOwner_written member written
      intro other found
      obtain rfl := Option.some.inj (stored.symm.trans found)
      exact ofWrites
    apply ih (fun other inOrder => known other (List.mem_cons_of_mem _ inOrder)) later
    rcases reached with ⟨other, inOrder, own⟩ | found
    · rcases List.mem_cons.mp inOrder with rfl | inOrder
      · exact Or.inr (storeOwner_stays above member written (Or.inl own))
      · exact Or.inl ⟨other, inOrder, own⟩
    · exact Or.inr (storeOwner_stays above member written (Or.inr found))

/-- Writes of the entry's own owner change nothing. -/
theorem foldl_storeOwner_same {existing : AccountOwnerItem} {order : List OwnerWrite}
    (same : ∀ write ∈ order, write.owner = existing.owner) :
    order.foldl storeOwner (some existing) = some existing := by
  induction order with
  | nil => rfl
  | cons write order ih =>
    rw [List.foldl_cons, storeOwner, if_neg (fun moved => moved.1 (same write (List.mem_cons_self ..)).symm)]
    exact ih (fun other member => same other (List.mem_cons_of_mem _ member))

/-- Without a write of the owner, an entry of another owner never becomes its own. -/
theorem foldl_storeOwner_other {existing : AccountOwnerItem} {order : List OwnerWrite}
    (different : existing.owner ≠ owner) (others : ∀ write ∈ order, write.owner ≠ owner) :
    ∃ item, order.foldl storeOwner (some existing) = some item ∧ item.owner ≠ owner := by
  induction order generalizing existing with
  | nil => exact ⟨existing, rfl, different⟩
  | cons write order ih =>
    have later : ∀ other ∈ order, other.owner ≠ owner :=
      fun other member => others other (List.mem_cons_of_mem _ member)
    rw [List.foldl_cons, storeOwner]
    split
    · exact ih (others write (List.mem_cons_self ..)) later
    · exact ih different later

/-- The order that loses an owner: a low write of it, its other writes, then a write of another owner in
between and the remaining ones. -/
theorem exists_losing_order {own other : OwnerWrite} (member : own ∈ writes) (member' : other ∈ writes)
    (ofOwner : own.owner = owner) (different : other.owner ≠ owner) (between : own.slot < other.slot) :
    ∃ order : List OwnerWrite, order.Perm writes ∧
      ∃ item, order.foldl storeOwner none = some item ∧ item.owner ≠ owner := by
  let owners := (writes.filter fun write => write.owner = owner).erase own
  let others := (writes.filter fun write => ¬ write.owner = owner).erase other
  refine ⟨(own :: owners) ++ other :: others, ?_, ?_⟩
  · have split := List.filter_append_perm (fun write : OwnerWrite => decide (write.owner = owner)) writes
    refine List.Perm.trans (List.Perm.append ?_ ?_) split
    · exact (List.perm_cons_erase (List.mem_filter.mpr ⟨member, by simpa using ofOwner⟩)).symm
    · simpa [others] using
        (List.perm_cons_erase (List.mem_filter.mpr ⟨member', by simpa using different⟩ :
          other ∈ writes.filter fun write => ¬ write.owner = owner)).symm
  · have kept : owners.foldl storeOwner (some ⟨own.owner, own.slot⟩) = some ⟨own.owner, own.slot⟩ := by
      apply foldl_storeOwner_same
      intro write inOwners
      have filtered := (List.mem_filter.mp (List.mem_of_mem_erase inOwners)).2
      exact (of_decide_eq_true filtered).trans ofOwner.symm
    have replaced : storeOwner (some ⟨own.owner, own.slot⟩) other = some ⟨other.owner, other.slot⟩ :=
      if_pos ⟨fun same => different (same.symm.trans ofOwner), between⟩
    rw [List.foldl_append, List.foldl_cons, List.foldl_cons]
    change ∃ item, others.foldl storeOwner (storeOwner (owners.foldl storeOwner (some ⟨own.owner, own.slot⟩)) other)
      = some item ∧ _
    rw [kept, replaced]
    apply foldl_storeOwner_other different
    intro write inOthers
    have filtered := (List.mem_filter.mp (List.mem_of_mem_erase inOthers)).2
    exact of_decide_eq_true filtered

end Entry

/-- The write at the highest slot. -/
def IsHighest (newest : OwnerWrite) (writes : List OwnerWrite) : Prop :=
  newest ∈ writes ∧ ∀ write ∈ writes, write.slot ≤ newest.slot

/-- Whatever the order of an account's writes, and whatever is written for other accounts in between, the
map ends with the owner of the highest write exactly when all writes of that owner are above all writes of
every other owner. -/
theorem newest_owner_is_stored_iff {ownerMap : AccountOwnerMap} {pubkey : Pubkey} {writes : List OwnerWrite}
    {newest : OwnerWrite} (untracked : ownerMap.accounts.lookup pubkey = none)
    (ofAccount : ∀ write ∈ writes, write.pubkey = pubkey) (distinct : (writes.map OwnerWrite.slot).Nodup)
    (highest : IsHighest newest writes) :
    (∀ calls : List OwnerWrite, (writesOf pubkey calls).Perm writes →
      ((ownerMap.upsertAll calls).accounts.lookup pubkey).map AccountOwnerItem.owner = some newest.owner) ↔
    StaysAbove newest.owner writes := by
  constructor
  · intro stored own inWrites other inWrites' ofOwner different
    by_contra notBelow
    have apart : own.slot ≠ other.slot := fun same => by
      have equal := List.inj_on_of_nodup_map distinct inWrites inWrites' same
      exact different (equal ▸ ofOwner)
    obtain ⟨order, perm, item, ends, lost⟩ :=
      exists_losing_order inWrites inWrites' ofOwner different (by omega)
    have own_only : writesOf pubkey order = order := List.filter_eq_self.mpr
      fun write inOrder => by simpa using ofAccount write (perm.mem_iff.mp inOrder)
    have wins := stored order (own_only.symm ▸ perm)
    rw [lookup_upsertAll, own_only, untracked, ends] at wins
    exact lost (Option.some.inj wins)
  · intro above calls perm
    obtain ⟨item, ends, own⟩ := foldl_storeOwner_stays above
      (fun write inOrder => perm.mem_iff.mp inOrder) (fun item (found : none = some item) => absurd found (by simp))
      (Or.inl ⟨newest, perm.mem_iff.mpr highest.1, rfl⟩)
    rw [lookup_upsertAll, untracked, ends]
    exact congrArg some own

/-- Two owners in turn, the later one first, and another account's write in between. -/
theorem newest_owner_is_stored_after_a_move :
    ((AccountOwnerMap.upsertAll ⟨∅, ∅⟩ [⟨7, 2, 20⟩, ⟨9, 1, 15⟩, ⟨7, 1, 10⟩]).accounts.lookup 7).map
      AccountOwnerItem.owner = some 2 := by
  have above : StaysAbove 2 [⟨7, 1, 10⟩, ⟨7, 2, 20⟩] := by
    intro own inWrites other inWrites' ofOwner different
    simp only [List.mem_cons, List.not_mem_nil, or_false] at inWrites inWrites'
    rcases inWrites with rfl | rfl
    · exact absurd ofOwner (by decide)
    · rcases inWrites' with rfl | rfl
      · decide
      · exact absurd rfl different
  exact (newest_owner_is_stored_iff (ToMathlib.HashMap.lookup_empty 7) (by decide) (by decide)
    (⟨by decide, by decide⟩ : IsHighest ⟨7, 2, 20⟩ _)).mpr above _ (by decide)

/-- Owner 1 at slots 10 and 30, and the late write of owner 2 at slot 20: the account is left with an
owner that it had already left. -/
theorem late_owner_replaces_the_newest :
    ¬ ∀ (ownerMap : AccountOwnerMap) (pubkey : Pubkey) (writes : List OwnerWrite) (newest : OwnerWrite),
      ownerMap.accounts.lookup pubkey = none → (∀ write ∈ writes, write.pubkey = pubkey) →
      (writes.map OwnerWrite.slot).Nodup → IsHighest newest writes →
      ∀ calls : List OwnerWrite, (writesOf pubkey calls).Perm writes →
        ((ownerMap.upsertAll calls).accounts.lookup pubkey).map AccountOwnerItem.owner = some newest.owner := by
  intro stored
  have wins := stored ⟨∅, ∅⟩ 7 [⟨7, 1, 10⟩, ⟨7, 1, 30⟩, ⟨7, 2, 20⟩] ⟨7, 1, 30⟩
    (ToMathlib.HashMap.lookup_empty 7) (by decide) (by decide) ⟨by decide, by decide⟩
    [⟨7, 1, 10⟩, ⟨7, 1, 30⟩, ⟨7, 2, 20⟩] (by decide)
  revert wins
  decide +kernel

end Cloudbreak.Model.SaveBlock
