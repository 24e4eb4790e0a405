import Cloudbreak.Model.Gpa.Cache

/-! # The walk of the cleanup

The nested walk over slots and buckets is one pass over the queries in slot order, which drops a query
exactly while the budget of its kind is unmet. Budgets are only ever met further on, so among the pinned
and among the unpinned queries the dropped ones come first.
-/

namespace Cloudbreak.Model.Gpa

open Cloudbreak.ToMathlib

/-- A subtraction that gives the difference wherever there is one. -/
def Exact (sub : Subtraction) : Prop := ∀ total bytes, bytes ≤ total → sub total bytes = some (total - bytes)

theorem exact_saturatingSub : Exact saturatingSub := fun _ _ _ => rfl

theorem exact_checkedSub : Exact checkedSub := fun _ _ le => if_pos le

/-- The bytes of a query that count as pinned. -/
def pinnedBytes (config : GpaCacheConfig) (cached : CachedQuery) : ℕ :=
  if config.isPinnedSize cached.size then cached.size else 0

/-- Both counters are the sums over the cached queries. -/
structure Counted {Query : Type} (config : GpaCacheConfig) (queries : HashMap Query CachedQuery)
    (size pinnedSize : ℕ) : Prop where
  size : size = HashMap.sum (fun _ cached => cached.size) queries
  pinned : pinnedSize = HashMap.sum (fun _ => pinnedBytes config) queries

variable {Query : Type} [DecidableEq Query] {config : GpaCacheConfig} {bytesToFree : ℕ}

namespace Counted

variable {queries : HashMap Query CachedQuery} {size pinnedSize : ℕ} {query : Query} {cached : CachedQuery}

/-- A cached query is covered by both counters. -/
theorem covers (counted : Counted config queries size pinnedSize) (present : queries.lookup query = some cached) :
    cached.size ≤ size ∧ pinnedBytes config cached ≤ pinnedSize := by
  have sizes := HashMap.sum_erase (fun _ cached => cached.size) queries query
  have pins := HashMap.sum_erase (fun _ => pinnedBytes config) queries query
  rw [present, Option.elim_some] at sizes pins
  rw [counted.size, counted.pinned]
  omega

theorem erase (counted : Counted config queries size pinnedSize) (present : queries.lookup query = some cached) :
    Counted config (queries.erase query) (size - cached.size) (pinnedSize - pinnedBytes config cached) := by
  have sizes := HashMap.sum_erase (fun _ cached => cached.size) queries query
  have pins := HashMap.sum_erase (fun _ => pinnedBytes config) queries query
  rw [present, Option.elim_some] at sizes pins
  constructor
  · rw [counted.size]
    omega
  · rw [counted.pinned]
    omega

/-- The counters after an entry is put in the place of what was cached under its query. -/
theorem insert (counted : Counted config queries size pinnedSize) (query : Query) (entry : CachedQuery) :
    Counted config (AList.insert query entry queries)
      (size + entry.size - (queries.lookup query).elim 0 CachedQuery.size)
      (pinnedSize + pinnedBytes config entry - (queries.lookup query).elim 0 (pinnedBytes config)) := by
  have sizes : (queries.lookup query).elim 0 CachedQuery.size + HashMap.sum (fun _ cached => cached.size)
      (queries.erase query) = HashMap.sum (fun _ cached => cached.size) queries :=
    HashMap.sum_erase (fun _ cached => cached.size) queries query
  have pins : (queries.lookup query).elim 0 (pinnedBytes config) + HashMap.sum (fun _ => pinnedBytes config)
      (queries.erase query) = HashMap.sum (fun _ => pinnedBytes config) queries :=
    HashMap.sum_erase (fun _ => pinnedBytes config) queries query
  constructor
  · rw [HashMap.sum_insert_erase, counted.size]
    omega
  · rw [HashMap.sum_insert_erase, counted.pinned]
    omega

end Counted

theorem pinnedBytes_of_pinned {cached : CachedQuery} (pinned : config.isPinnedSize cached.size = true) :
    pinnedBytes config cached = cached.size := if_pos pinned

theorem pinnedBytes_of_unpinned {cached : CachedQuery} (unpinned : config.isPinnedSize cached.size = false) :
    pinnedBytes config cached = 0 := by
  rw [pinnedBytes, unpinned]
  rfl

namespace Eviction

variable {walk last : Eviction Query} {query : Query} {cached : CachedQuery} {keys : List Query}

/-- Whether the budget of a kind of query is unmet. -/
def needs (walk : Eviction Query) (config : GpaCacheConfig) (bytesToFree : ℕ) (pinned : Bool) : Bool :=
  if pinned then walk.needPinned config else walk.needSize bytesToFree

/-- The walk without a query. -/
def evict (walk : Eviction Query) (config : GpaCacheConfig) (query : Query) (cached : CachedQuery) : Eviction Query where
  queries := walk.queries.erase query
  size := walk.size - cached.size
  pinnedSize := walk.pinnedSize - pinnedBytes config cached
  bytesFreed := walk.bytesFreed + cached.size
  evicted := walk.evicted ++ [cached]

/-- One pass over queries. -/
inductive Walked (config : GpaCacheConfig) (bytesToFree : ℕ) : List Query → Eviction Query → Eviction Query → Prop where
  | done {walk : Eviction Query} : Walked config bytesToFree [] walk walk
  | stays {walk last : Eviction Query} {query : Query} {cached : CachedQuery} {keys : List Query}
    (present : walk.queries.lookup query = some cached)
    (met : walk.needs config bytesToFree (config.isPinnedSize cached.size) = false)
    (rest : Walked config bytesToFree keys walk last) : Walked config bytesToFree (query :: keys) walk last
  | leaves {walk last : Eviction Query} {query : Query} {cached : CachedQuery} {keys : List Query}
    (present : walk.queries.lookup query = some cached)
    (unmet : walk.needs config bytesToFree (config.isPinnedSize cached.size) = true)
    (rest : Walked config bytesToFree keys (walk.evict config query cached) last) :
    Walked config bytesToFree (query :: keys) walk last

/-- What one query of a bucket does to the walk. -/
theorem retainQuery_eq {sub : Subtraction} (exactly : Exact sub)
    (counted : Counted config walk.queries walk.size walk.pinnedSize)
    (present : walk.queries.lookup query = some cached) :
    walk.retainQuery sub config bytesToFree query =
      some (if walk.needs config bytesToFree (config.isPinnedSize cached.size) then
        (walk.evict config query cached, false) else (walk, true)) := by
  obtain ⟨covered, pinnedCovered⟩ := counted.covers present
  unfold retainQuery needs
  simp only [present, Option.any_some]
  cases pinned : config.isPinnedSize cached.size with
  | true =>
    rw [pinnedBytes_of_pinned pinned] at pinnedCovered
    cases needsPinned : walk.needPinned config with
    | true =>
      simp only [evict, pinnedBytes_of_pinned pinned, exactly _ _ covered, exactly _ _ pinnedCovered, Bool.not_true,
        Bool.and_false, Bool.false_eq_true, if_false, if_true, Bool.false_and]
      rfl
    | false => simp
  | false =>
    cases needsSize : walk.needSize bytesToFree with
    | true =>
      simp only [evict, pinnedBytes_of_unpinned pinned, exactly _ _ covered, Bool.not_true, Bool.not_false,
        Bool.and_false, Bool.false_and, Bool.false_eq_true, if_false, if_true, Nat.sub_zero]
      rfl
    | false => simp

namespace Walked

theorem append {first second : List Query} {mid : Eviction Query} (before : Walked config bytesToFree first walk mid)
    (after : Walked config bytesToFree second mid last) : Walked config bytesToFree (first ++ second) walk last := by
  induction before with
  | done => exact after
  | stays present met _ ih => exact .stays present met (ih after)
  | leaves present unmet _ ih => exact .leaves present unmet (ih after)

/-- Once both budgets are met every query stays. -/
theorem met (size : walk.needSize bytesToFree = false) (pinned : walk.needPinned config = false)
    (cached : ∀ query ∈ keys, ∃ cached, walk.queries.lookup query = some cached) :
    Walked config bytesToFree keys walk walk := by
  induction keys with
  | nil => exact .done
  | cons query rest ih =>
    obtain ⟨held, present⟩ := cached query List.mem_cons_self
    refine .stays present ?_ (ih fun other member => cached other (List.mem_cons_of_mem _ member))
    unfold needs
    split
    · exact pinned
    · exact size

/-- A query stays as it was or is gone. -/
theorem shrinks (walked : Walked config bytesToFree keys walk last) (query : Query) :
    last.queries.lookup query = walk.queries.lookup query ∨ last.queries.lookup query = none := by
  induction walked with
  | done => exact Or.inl rfl
  | stays _ _ _ ih => exact ih
  | leaves _ _ _ ih =>
    rcases ih with same | gone
    · rw [same, evict, HashMap.lookup_erase]
      split
      · exact Or.inr rfl
      · exact Or.inl rfl
    · exact Or.inr gone

theorem frame (walked : Walked config bytesToFree keys walk last) (outside : query ∉ keys) :
    last.queries.lookup query = walk.queries.lookup query := by
  induction walked with
  | done => rfl
  | stays _ _ _ ih => exact ih (List.not_mem_of_not_mem_cons outside)
  | leaves _ _ _ ih =>
    rw [ih (List.not_mem_of_not_mem_cons outside), evict, HashMap.lookup_erase,
      if_neg (List.ne_of_not_mem_cons outside)]

theorem counted (walked : Walked config bytesToFree keys walk last)
    (counted : Counted config walk.queries walk.size walk.pinnedSize) :
    Counted config last.queries last.size last.pinnedSize := by
  induction walked with
  | done => exact counted
  | stays _ _ _ ih => exact ih counted
  | leaves present _ _ ih => exact ih (counted.erase present)

/-- What leaves the size is what was freed. -/
theorem freed (walked : Walked config bytesToFree keys walk last)
    (counted : Counted config walk.queries walk.size walk.pinnedSize) :
    last.bytesFreed + last.size = walk.bytesFreed + walk.size := by
  induction walked with
  | done => rfl
  | stays _ _ _ ih => exact ih counted
  | leaves present _ _ ih =>
    have covered := (counted.covers present).1
    rw [ih (counted.erase present), evict]
    dsimp only
    omega

private theorem pinnedSize_le (walked : Walked config bytesToFree keys walk last) :
    last.pinnedSize ≤ walk.pinnedSize := by
  induction walked with
  | done => exact le_rfl
  | stays _ _ _ ih => exact ih
  | leaves _ _ _ ih => exact ih.trans (Nat.sub_le _ _)

/-- The evicted query is gone for good. -/
theorem gone (walked : Walked config bytesToFree keys (walk.evict config query cached) last) :
    last.queries.lookup query = none := by
  have erased : (walk.evict config query cached).queries.lookup query = none := by
    rw [evict, HashMap.lookup_erase, if_pos rfl]
  rcases walked.shrinks query with same | gone
  · rw [same, erased]
  · exact gone

/-- A met budget stays met, and protects every query of its kind. -/
theorem protects {pinned : Bool} (walked : Walked config bytesToFree keys walk last)
    (budget : walk.needs config bytesToFree pinned = false) (present : walk.queries.lookup query = some cached)
    (kind : config.isPinnedSize cached.size = pinned) : last.queries.lookup query = some cached := by
  induction walked with
  | done => exact present
  | stays _ _ _ ih => exact ih budget present
  | @leaves walk _ other evicted _ held unmet _ ih =>
    have differs : config.isPinnedSize evicted.size ≠ pinned := by
      intro same
      rw [same, budget] at unmet
      contradiction
    refine ih ?_ ?_
    · cases pinned with
      | true =>
        rw [Ne, Bool.not_eq_true] at differs
        rw [needs, if_pos rfl] at budget ⊢
        rw [needPinned, evict, pinnedBytes_of_unpinned differs]
        exact budget
      | false =>
        have reached : bytesToFree ≤ walk.bytesFreed := by simpa [needs, needSize] using budget
        exact decide_eq_false (not_lt.mpr (Nat.le_add_right_of_le reached))
    · have other : query ≠ other := by
        rintro rfl
        rw [held, Option.some.injEq] at present
        rw [present] at differs
        exact differs kind
      rw [evict, HashMap.lookup_erase, if_neg other]
      exact present

/-- Among the queries of one kind, those evicted come first. -/
theorem evictsPrefix {before : HashMap Query CachedQuery} (walked : Walked config bytesToFree keys walk last)
    (distinct : keys.Nodup) (agree : ∀ query ∈ keys, walk.queries.lookup query = before.lookup query) :
    keys.Pairwise fun first second =>
      (before.lookup first).map (config.isPinnedSize ·.size) = (before.lookup second).map (config.isPinnedSize ·.size) →
        last.queries.lookup second = none → last.queries.lookup first = none := by
  induction walked with
  | done => exact List.Pairwise.nil
  | @stays walk last query cached keys present met rest ih =>
    obtain ⟨fresh, distinctRest⟩ := List.nodup_cons.mp distinct
    have agreeRest : ∀ other ∈ keys, walk.queries.lookup other = before.lookup other := fun other member =>
      agree other (List.mem_cons_of_mem _ member)
    refine List.Pairwise.cons (fun second member kinds gone => ?_) (ih distinctRest agreeRest)
    rw [← agree query List.mem_cons_self, present, ← agreeRest second member, Option.map_some] at kinds
    obtain ⟨held, heldPresent, kind⟩ := Option.map_eq_some_iff.mp kinds.symm
    rw [rest.protects met heldPresent kind] at gone
    contradiction
  | @leaves walk last query cached keys present unmet rest ih =>
    obtain ⟨fresh, distinctRest⟩ := List.nodup_cons.mp distinct
    refine List.Pairwise.cons (fun _ _ _ _ => rest.gone) (ih distinctRest fun other member => ?_)
    rw [evict, HashMap.lookup_erase, if_neg (ne_of_mem_of_not_mem member fresh)]
    exact agree other (List.mem_cons_of_mem _ member)

/-- An unpinned query is evicted only while the earlier evictions have not freed enough. -/
theorem needed {before : HashMap Query CachedQuery} (walked : Walked config bytesToFree keys walk last)
    (distinct : keys.Nodup) (agree : ∀ query ∈ keys, walk.queries.lookup query = before.lookup query)
    {front back : List Query} (split : keys = front ++ query :: back) (gone : last.queries.lookup query = none)
    (present : before.lookup query = some cached) (unpinned : config.isPinnedSize cached.size = false) :
    walk.bytesFreed + ((front.filter fun other => (last.queries.lookup other).isNone).map fun other =>
      (before.lookup other).elim 0 CachedQuery.size).sum < bytesToFree := by
  induction walked generalizing front with
  | done => simp at split
  | @stays walk last first held keys heldPresent met rest ih =>
    obtain ⟨fresh, distinctRest⟩ := List.nodup_cons.mp distinct
    cases front with
    | nil =>
      obtain ⟨rfl, rfl⟩ := List.cons.inj split
      rw [rest.frame fresh, heldPresent] at gone
      contradiction
    | cons other front =>
      obtain ⟨rfl, tail⟩ := List.cons.inj split
      have kept : (last.queries.lookup first).isNone = false := by
        rw [rest.frame fresh, heldPresent]
        rfl
      rw [List.filter_cons_of_neg (by rw [kept]; exact Bool.false_ne_true)]
      exact ih distinctRest (fun other member => agree other (List.mem_cons_of_mem _ member)) tail gone
  | @leaves walk last first held keys heldPresent unmet rest ih =>
    obtain ⟨fresh, distinctRest⟩ := List.nodup_cons.mp distinct
    have heldBefore : before.lookup first = some held := by
      rw [← agree first List.mem_cons_self]
      exact heldPresent
    cases front with
    | nil =>
      obtain ⟨rfl, rfl⟩ := List.cons.inj split
      rw [heldBefore, Option.some.injEq] at present
      rw [present, unpinned, needs, if_neg Bool.false_ne_true] at unmet
      simpa [needSize] using unmet
    | cons other front =>
      obtain ⟨rfl, tail⟩ := List.cons.inj split
      have left : (last.queries.lookup first).isNone = true := by
        rw [rest.gone]
        rfl
      have agreeRest : ∀ other ∈ keys, (walk.evict config first held).queries.lookup other = before.lookup other := by
        intro other member
        rw [evict, HashMap.lookup_erase, if_neg (ne_of_mem_of_not_mem member fresh)]
        exact agree other (List.mem_cons_of_mem _ member)
      have later := ih distinctRest agreeRest tail gone
      rw [List.filter_cons, if_pos left, List.map_cons, List.sum_cons, heldBefore, Option.elim_some]
      change walk.bytesFreed + held.size + _ < _ at later
      omega

/-- While the pinned budget is unmet to the end, every pinned query is evicted. -/
theorem pinned_gone (walked : Walked config bytesToFree keys walk last) (unmet : last.needPinned config = true)
    (member : query ∈ keys) (present : walk.queries.lookup query = some cached)
    (pinned : config.isPinnedSize cached.size = true) : last.queries.lookup query = none := by
  induction walked with
  | done => contradiction
  | @stays walk last first held keys heldPresent met rest ih =>
    rcases List.mem_cons.mp member with rfl | member
    · rw [heldPresent, Option.some.injEq] at present
      rw [present, pinned, needs, if_pos rfl] at met
      have less := rest.pinnedSize_le
      simp only [needPinned, decide_eq_true_eq, decide_eq_false_iff_not, gt_iff_lt, not_lt] at unmet met
      omega
    · exact ih unmet member present
  | @leaves walk last first held keys heldPresent _ rest ih =>
    by_cases same : query = first
    · rw [same]
      exact rest.gone
    · refine ih unmet ((List.mem_cons.mp member).resolve_left same) ?_
      rw [evict, HashMap.lookup_erase, if_neg same]
      exact present

/-- A pass over every cached query leaves the pinned ones under their cap. -/
theorem capped (walked : Walked config bytesToFree keys walk last)
    (counted : Counted config walk.queries walk.size walk.pinnedSize)
    (all : ∀ query cached, walk.queries.lookup query = some cached → query ∈ keys) :
    last.pinnedSize ≤ config.pinnedThreshold := by
  by_contra exceeded
  have unmet : last.needPinned config = true := decide_eq_true (not_le.mp exceeded)
  have zero : HashMap.sum (fun _ => pinnedBytes config) last.queries = 0 := by
    refine List.sum_eq_zero fun bytes member => ?_
    obtain ⟨entry, entryMember, rfl⟩ := List.mem_map.mp member
    have held : last.queries.lookup entry.1 = some entry.2 := HashMap.lookup_eq_some_iff.mpr entryMember
    have before : walk.queries.lookup entry.1 = some entry.2 := by
      rcases walked.shrinks entry.1 with same | gone
      · rw [← same]
        exact held
      · rw [gone] at held
        contradiction
    cases pinned : config.isPinnedSize entry.2.size with
    | false => exact pinnedBytes_of_unpinned pinned
    | true =>
      rw [walked.pinned_gone unmet (all _ _ before) before pinned] at held
      contradiction
  rw [(walked.counted counted).pinned, zero] at exceeded
  exact exceeded (Nat.zero_le _)

end Walked

end Eviction

end Cloudbreak.Model.Gpa
