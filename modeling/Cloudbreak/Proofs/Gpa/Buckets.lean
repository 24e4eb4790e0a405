import Cloudbreak.Proofs.Gpa.Eviction

/-! # The slot buckets follow the cached queries

Every operation on the buckets either keeps the queries of a predicate, or appends one query under a slot. Both
keep the buckets ascending, without an empty one, and with every query in the bucket of its own slot.
-/

namespace Cloudbreak.Model.Gpa

open Cloudbreak.ToMathlib

variable {Query : Type}

/-- The queries in the order of their slots. -/
def listed (queriesForSlot : List (ℕ × List Query)) : List Query := queriesForSlot.flatMap Prod.snd

def FiledAt (query : Query) (slot : ℕ) (queriesForSlot : List (ℕ × List Query)) : Prop :=
  ∃ bucket, (slot, bucket) ∈ queriesForSlot ∧ query ∈ bucket

/-- The buckets hold the cached queries, each once and under its slot. -/
structure Filed (queriesForSlot : List (ℕ × List Query)) (lookup : Query → Option CachedQuery) : Prop where
  ascending : (queriesForSlot.map Prod.fst).Pairwise (· < ·)
  nonempty : ∀ item ∈ queriesForSlot, item.2 ≠ []
  distinct : (listed queriesForSlot).Nodup
  own : ∀ query slot, FiledAt query slot queriesForSlot ↔ ∃ cached, lookup query = some cached ∧ cached.slot = slot

private theorem mem_listed {query : Query} {queriesForSlot : List (ℕ × List Query)} :
    query ∈ listed queriesForSlot ↔ ∃ slot, FiledAt query slot queriesForSlot := by
  rw [listed, List.mem_flatMap]
  constructor
  · rintro ⟨⟨slot, bucket⟩, member, inside⟩
    exact ⟨slot, bucket, member, inside⟩
  · rintro ⟨slot, bucket, member, inside⟩
    exact ⟨(slot, bucket), member, inside⟩

theorem Filed.mem_listed_iff {queriesForSlot : List (ℕ × List Query)} {lookup : Query → Option CachedQuery}
    (filed : Filed queriesForSlot lookup) {query : Query} :
    query ∈ listed queriesForSlot ↔ ∃ cached, lookup query = some cached := by
  rw [mem_listed]
  constructor
  · rintro ⟨slot, inside⟩
    obtain ⟨cached, present, -⟩ := (filed.own query slot).mp inside
    exact ⟨cached, present⟩
  · rintro ⟨cached, present⟩
    exact ⟨cached.slot, (filed.own query cached.slot).mpr ⟨cached, present, rfl⟩⟩

/-! ## Keeping the queries of a predicate -/

/-- Filters every bucket and drops the empty ones. -/
def trim (keep : Query → Bool) (queriesForSlot : List (ℕ × List Query)) : List (ℕ × List Query) :=
  queriesForSlot.filterMap fun item =>
    if item.2.filter keep = [] then none else some (item.1, item.2.filter keep)

theorem trim_cons (keep : Query → Bool) (slot : ℕ) (bucket : List Query) (rest : List (ℕ × List Query)) :
    trim keep ((slot, bucket) :: rest) =
      if bucket.filter keep = [] then trim keep rest else (slot, bucket.filter keep) :: trim keep rest := by
  split
  · next empty => exact List.filterMap_cons_none (if_pos empty)
  · next full => exact List.filterMap_cons_some (if_neg full)

private theorem listed_trim (keep : Query → Bool) (queriesForSlot : List (ℕ × List Query)) :
    listed (trim keep queriesForSlot) = (listed queriesForSlot).filter keep := by
  induction queriesForSlot with
  | nil => rfl
  | cons item rest ih =>
    obtain ⟨slot, bucket⟩ := item
    have whole : listed ((slot, bucket) :: rest) = bucket ++ listed rest := rfl
    rw [trim_cons, whole, List.filter_append, ← ih]
    split
    · next empty => rw [empty, List.nil_append]
    · rfl

private theorem keys_trim (keep : Query → Bool) (queriesForSlot : List (ℕ × List Query)) :
    ((trim keep queriesForSlot).map Prod.fst).Sublist (queriesForSlot.map Prod.fst) := by
  induction queriesForSlot with
  | nil => exact List.Sublist.refl _
  | cons item rest ih =>
    obtain ⟨slot, bucket⟩ := item
    rw [trim_cons]
    split
    · exact ih.cons slot
    · exact ih.cons_cons slot

theorem mem_trim {keep : Query → Bool} {queriesForSlot : List (ℕ × List Query)} {item : ℕ × List Query} :
    item ∈ trim keep queriesForSlot ↔
      item.2 ≠ [] ∧ ∃ bucket, (item.1, bucket) ∈ queriesForSlot ∧ item.2 = bucket.filter keep := by
  rw [trim, List.mem_filterMap]
  constructor
  · rintro ⟨⟨slot, bucket⟩, member, same⟩
    split at same
    · contradiction
    · next full =>
      cases same
      exact ⟨full, bucket, member, rfl⟩
  · rintro ⟨full, bucket, member, same⟩
    refine ⟨(item.1, bucket), member, ?_⟩
    rw [same] at full
    rw [if_neg full, ← same]

private theorem filedAt_trim {keep : Query → Bool} {query : Query} {slot : ℕ} {queriesForSlot : List (ℕ × List Query)} :
    FiledAt query slot (trim keep queriesForSlot) ↔ FiledAt query slot queriesForSlot ∧ keep query := by
  constructor
  · rintro ⟨trimmed, member, inside⟩
    obtain ⟨-, bucket, held, same⟩ := mem_trim.mp member
    change trimmed = bucket.filter keep at same
    rw [same] at inside
    obtain ⟨inside, kept⟩ := List.mem_filter.mp inside
    exact ⟨⟨bucket, held, inside⟩, kept⟩
  · rintro ⟨⟨bucket, member, inside⟩, kept⟩
    have stays := List.mem_filter.mpr ⟨inside, kept⟩
    exact ⟨bucket.filter keep, mem_trim.mpr ⟨List.ne_nil_of_mem stays, bucket, member, rfl⟩, stays⟩

/-- Buckets and lookups restricted by one predicate stay in line. -/
theorem Filed.trim {queriesForSlot : List (ℕ × List Query)} {lookup after : Query → Option CachedQuery}
    (filed : Filed queriesForSlot lookup) (keep : Query → Bool)
    (restricted : ∀ query, after query = if keep query then lookup query else none) :
    Filed (Gpa.trim keep queriesForSlot) after where
  ascending := filed.ascending.sublist (keys_trim keep queriesForSlot)
  nonempty _ member := (mem_trim.mp member).1
  distinct := by
    rw [listed_trim]
    exact filed.distinct.filter keep
  own query slot := by
    rw [filedAt_trim, filed.own, restricted]
    split
    · next kept => simp [kept]
    · next dropped => simp [dropped]

/-- A query is dropped from the only bucket that may hold it. -/
theorem Filed.dropFromSlot_eq [DecidableEq Query] {queriesForSlot : List (ℕ × List Query)}
    {lookup : Query → Option CachedQuery} (filed : Filed queriesForSlot lookup) {query : Query} {cached : CachedQuery}
    (present : lookup query = some cached) :
    dropFromSlot query cached.slot queriesForSlot = Gpa.trim (fun other => decide (other ≠ query)) queriesForSlot := by
  refine List.filterMap_congr fun item member => ?_
  obtain ⟨slot, bucket⟩ := item
  split
  · rfl
  · next elsewhere =>
    have outside : query ∉ bucket := by
      intro inside
      obtain ⟨held, same, slotIs⟩ := (filed.own query slot).mp ⟨bucket, member, inside⟩
      rw [present, Option.some.injEq] at same
      exact elsewhere (same ▸ slotIs.symm)
    have all : bucket.filter (fun other => decide (other ≠ query)) = bucket :=
      List.filter_eq_self.mpr fun other inside => decide_eq_true (ne_of_mem_of_not_mem inside outside)
    rw [all, if_neg (filed.nonempty _ member)]

/-! ## Appending a query -/

private theorem listed_push (query : Query) (slot : ℕ) (queriesForSlot : List (ℕ × List Query)) :
    (listed (pushForSlot query slot queriesForSlot)).Perm (query :: listed queriesForSlot) := by
  induction queriesForSlot with
  | nil => exact List.Perm.refl _
  | cons item rest ih =>
    obtain ⟨other, bucket⟩ := item
    rw [pushForSlot]
    split
    · exact List.Perm.refl _
    · split
      · change (bucket ++ [query] ++ listed rest).Perm (query :: (bucket ++ listed rest))
        rw [List.append_assoc]
        exact List.perm_middle
      · exact (ih.append_left bucket).trans List.perm_middle

private theorem filedAt_push {query other : Query} {slot at_ : ℕ} {queriesForSlot : List (ℕ × List Query)} :
    FiledAt other at_ (pushForSlot query slot queriesForSlot) ↔
      FiledAt other at_ queriesForSlot ∨ other = query ∧ at_ = slot := by
  induction queriesForSlot with
  | nil => simp [pushForSlot, FiledAt, and_comm]
  | cons item rest ih =>
    obtain ⟨first, bucket⟩ := item
    have cons : ∀ (held : List Query) (tail : List (ℕ × List Query)),
        FiledAt other at_ ((first, held) :: tail) ↔ at_ = first ∧ other ∈ held ∨ FiledAt other at_ tail := by
      intro held tail
      simp only [FiledAt, List.mem_cons, Prod.mk.injEq]
      constructor
      · rintro ⟨_, ⟨rfl, rfl⟩ | member, inside⟩
        · exact Or.inl ⟨rfl, inside⟩
        · exact Or.inr ⟨_, member, inside⟩
      · rintro (⟨rfl, inside⟩ | ⟨other, member, inside⟩)
        · exact ⟨held, Or.inl ⟨rfl, rfl⟩, inside⟩
        · exact ⟨other, Or.inr member, inside⟩
    rw [pushForSlot]
    split
    · constructor
      · rintro ⟨held, member, inside⟩
        rcases List.mem_cons.mp member with same | member
        · cases same
          exact Or.inr ⟨List.mem_singleton.mp inside, rfl⟩
        · exact Or.inl ⟨held, member, inside⟩
      · rintro (⟨held, member, inside⟩ | ⟨rfl, rfl⟩)
        · exact ⟨held, List.mem_cons_of_mem _ member, inside⟩
        · exact ⟨[other], List.mem_cons_self, List.mem_singleton_self other⟩
    · split
      · next same =>
        subst same
        rw [cons, cons, List.mem_append, List.mem_singleton]
        tauto
      · rw [cons, cons, ih, or_assoc]

private theorem keys_push {query : Query} {slot at_ : ℕ} {queriesForSlot : List (ℕ × List Query)}
    (member : at_ ∈ (pushForSlot query slot queriesForSlot).map Prod.fst) :
    at_ = slot ∨ at_ ∈ queriesForSlot.map Prod.fst := by
  induction queriesForSlot with
  | nil => simpa [pushForSlot] using member
  | cons item rest ih =>
    obtain ⟨other, bucket⟩ := item
    rw [pushForSlot] at member
    split at member
    · exact List.mem_cons.mp member
    · split at member
      · exact Or.inr member
      · rcases List.mem_cons.mp member with same | member
        · exact Or.inr (same ▸ List.mem_cons_self)
        · exact (ih member).imp_right (List.mem_cons_of_mem _)

private theorem ascending_push {query : Query} {slot : ℕ} {queriesForSlot : List (ℕ × List Query)}
    (ascending : (queriesForSlot.map Prod.fst).Pairwise (· < ·)) :
    ((pushForSlot query slot queriesForSlot).map Prod.fst).Pairwise (· < ·) := by
  induction queriesForSlot with
  | nil => exact List.pairwise_singleton _ _
  | cons item rest ih =>
    obtain ⟨other, bucket⟩ := item
    obtain ⟨above, ascendingRest⟩ := List.pairwise_cons.mp ascending
    rw [pushForSlot]
    split
    · next before =>
      refine List.Pairwise.cons (fun later member => ?_) ascending
      rcases List.mem_cons.mp member with same | member
      · exact same ▸ before
      · exact before.trans (above later member)
    · next notBefore =>
      split
      · exact ascending
      · next differs =>
        refine List.Pairwise.cons (fun later member => ?_) (ih ascendingRest)
        rcases keys_push member with same | member
        · rw [same]
          change other < slot
          omega
        · exact above later member

private theorem nonempty_push {query : Query} {slot : ℕ} {queriesForSlot : List (ℕ × List Query)}
    (nonempty : ∀ item ∈ queriesForSlot, item.2 ≠ []) : ∀ item ∈ pushForSlot query slot queriesForSlot, item.2 ≠ [] := by
  induction queriesForSlot with
  | nil => simp [pushForSlot]
  | cons item rest ih =>
    obtain ⟨other, bucket⟩ := item
    obtain ⟨full, fullRest⟩ := List.forall_mem_cons.mp nonempty
    rw [pushForSlot]
    split
    · exact List.forall_mem_cons.mpr ⟨List.cons_ne_nil _ _, nonempty⟩
    · split
      · exact List.forall_mem_cons.mpr ⟨by simp, fullRest⟩
      · exact List.forall_mem_cons.mpr ⟨full, ih fullRest⟩

/-- An uncached query is filed with its entry. -/
theorem Filed.push [DecidableEq Query] {queriesForSlot : List (ℕ × List Query)} {lookup after : Query → Option CachedQuery}
    (filed : Filed queriesForSlot lookup) {query : Query} {entry : CachedQuery} (absent : lookup query = none)
    (extended : ∀ other, after other = if other = query then some entry else lookup other) :
    Filed (pushForSlot query entry.slot queriesForSlot) after where
  ascending := ascending_push filed.ascending
  nonempty := nonempty_push filed.nonempty
  distinct := by
    rw [(listed_push query entry.slot queriesForSlot).nodup_iff, List.nodup_cons, filed.mem_listed_iff]
    refine ⟨?_, filed.distinct⟩
    rintro ⟨cached, present⟩
    rw [absent] at present
    contradiction
  own other slot := by
    rw [filedAt_push, filed.own, extended]
    split
    · next same =>
      subst same
      simp [absent, eq_comm]
    · next differs => simp [differs]

end Cloudbreak.Model.Gpa
