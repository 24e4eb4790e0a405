import Cloudbreak.Proofs.Gpa.Buckets
import Cloudbreak.ToMathlib.Run

/-! # The cache accounts for what it holds

From an empty cache, installs, removals and cleanups in any order keep the counters equal to their sums, the
size within its bound and the buckets in line, and no subtraction on a counter saturates on the way.
-/

namespace Cloudbreak.Model.Gpa

open Cloudbreak.ToMathlib

variable {Query : Type} [DecidableEq Query] {config : GpaCacheConfig}

/-! ## The nested walk is one pass -/

namespace Eviction

variable {walk : Eviction Query}

private theorem retainBucket_eq (bytesToFree : ℕ) (counted : Counted config walk.queries walk.size walk.pinnedSize)
    {bucket : List Query} (distinct : bucket.Nodup) (held : ∀ query ∈ bucket, ∃ cached, walk.queries.lookup query = some cached) :
    ∃ last, Walked config bytesToFree bucket walk last ∧ ∀ sub, Exact sub →
      walk.retainBucket sub config bytesToFree bucket =
        some (last, bucket.filter fun query => (last.queries.lookup query).isSome) := by
  induction bucket generalizing walk with
  | nil => exact ⟨walk, .done, fun _ _ => rfl⟩
  | cons query rest ih =>
    obtain ⟨fresh, distinctRest⟩ := List.nodup_cons.mp distinct
    obtain ⟨cached, present⟩ := held query List.mem_cons_self
    cases unmet : walk.needs config bytesToFree (config.isPinnedSize cached.size) with
    | true =>
      have heldRest : ∀ other ∈ rest, ∃ kept, (walk.evict config query cached).queries.lookup other = some kept := by
        intro other member
        obtain ⟨kept, keptPresent⟩ := held other (List.mem_cons_of_mem _ member)
        refine ⟨kept, ?_⟩
        rw [evict, HashMap.lookup_erase, if_neg (ne_of_mem_of_not_mem member fresh)]
        exact keptPresent
      obtain ⟨last, walked, retained⟩ := ih (counted.erase present) distinctRest heldRest
      refine ⟨last, .leaves present unmet walked, fun sub exactly => ?_⟩
      have left : (last.queries.lookup query).isSome = false := by
        rw [walked.gone]
        rfl
      rw [retainBucket, retainQuery_eq exactly counted present, unmet]
      simp only [if_true, Option.bind_eq_bind, Option.bind_some, retained sub exactly, Bool.false_eq_true, if_false,
        Option.pure_def, List.filter_cons, left]
    | false =>
      obtain ⟨last, walked, retained⟩ := ih counted distinctRest fun other member =>
        held other (List.mem_cons_of_mem _ member)
      refine ⟨last, .stays present unmet walked, fun sub exactly => ?_⟩
      have kept : (last.queries.lookup query).isSome = true := by
        rw [walked.frame fresh, present]
        rfl
      rw [retainBucket, retainQuery_eq exactly counted present, unmet]
      simp only [Bool.false_eq_true, if_false, Option.bind_eq_bind, Option.bind_some, retained sub exactly, if_true,
        Option.pure_def, List.filter_cons, kept]

private theorem retainSlots_eq (bytesToFree : ℕ) (counted : Counted config walk.queries walk.size walk.pinnedSize)
    {queriesForSlot : List (ℕ × List Query)} (nonempty : ∀ item ∈ queriesForSlot, item.2 ≠ [])
    (distinct : (listed queriesForSlot).Nodup)
    (held : ∀ query ∈ listed queriesForSlot, ∃ cached, walk.queries.lookup query = some cached) :
    ∃ last, Walked config bytesToFree (listed queriesForSlot) walk last ∧ ∀ sub, Exact sub →
      walk.retainSlots sub config bytesToFree queriesForSlot =
        some (last, trim (fun query => (last.queries.lookup query).isSome) queriesForSlot) := by
  induction queriesForSlot generalizing walk with
  | nil => exact ⟨walk, .done, fun _ _ => rfl⟩
  | cons item rest ih =>
    obtain ⟨slot, bucket⟩ := item
    obtain ⟨full, fullRest⟩ := List.forall_mem_cons.mp nonempty
    have whole : listed ((slot, bucket) :: rest) = bucket ++ listed rest := rfl
    rw [whole] at distinct held ⊢
    obtain ⟨distinctBucket, distinctRest, apart⟩ := List.nodup_append.mp distinct
    have heldBucket : ∀ query ∈ bucket, ∃ cached, walk.queries.lookup query = some cached := fun query member =>
      held query (List.mem_append_left _ member)
    have heldRest : ∀ query ∈ listed rest, ∃ cached, walk.queries.lookup query = some cached := fun query member =>
      held query (List.mem_append_right _ member)
    by_cases met : (!walk.needSize bytesToFree && !walk.needPinned config) = true
    · obtain ⟨size, pinned⟩ := (Bool.and_eq_true _ _).mp met
      rw [Bool.not_eq_true'] at size pinned
      obtain ⟨last, walked, retained⟩ := ih counted fullRest distinctRest heldRest
      refine ⟨last, (Walked.met size pinned heldBucket).append walked, fun sub exactly => ?_⟩
      have kept : bucket.filter (fun query => (last.queries.lookup query).isSome) = bucket := by
        refine List.filter_eq_self.mpr fun query member => ?_
        obtain ⟨cached, present⟩ := heldBucket query member
        rw [walked.frame fun later => apart query member query later rfl, present]
        rfl
      rw [retainSlots, if_pos met, trim_cons, kept, if_neg full, retained sub exactly]
      rfl
    · obtain ⟨mid, walkedBucket, retainedBucket⟩ := retainBucket_eq bytesToFree counted distinctBucket heldBucket
      have heldMid : ∀ query ∈ listed rest, ∃ cached, mid.queries.lookup query = some cached := by
        intro query member
        rw [walkedBucket.frame fun earlier => apart query earlier query member rfl]
        exact heldRest query member
      obtain ⟨last, walked, retained⟩ := ih (walkedBucket.counted counted) fullRest distinctRest heldMid
      refine ⟨last, walkedBucket.append walked, fun sub exactly => ?_⟩
      have same : bucket.filter (fun query => (mid.queries.lookup query).isSome) =
          bucket.filter fun query => (last.queries.lookup query).isSome := by
        refine List.filter_congr fun query member => ?_
        rw [walked.frame fun later => apart query member query later rfl]
      rw [retainSlots, if_neg met, retainedBucket sub exactly, trim_cons, ← same]
      simp only [Option.bind_eq_bind, Option.bind_some, retained sub exactly, Option.pure_def]

end Eviction

/-! ## The invariant -/

namespace GpaCache

variable {cache after : GpaCache Query}

/-- The counters, the bound and the buckets of a cache. -/
structure Accounts (cache : GpaCache Query) : Prop where
  counted : Counted cache.config cache.queries cache.size cache.pinnedSize
  fits : cache.size ≤ cache.config.maxTotalBytes
  filed : Filed cache.queriesForSlot fun query => cache.queries.lookup query

theorem Accounts.new (config : GpaCacheConfig) : (new config : GpaCache Query).Accounts where
  counted := ⟨rfl, rfl⟩
  fits := Nat.zero_le _
  filed := ⟨List.Pairwise.nil, fun _ member => absurd member List.not_mem_nil, List.nodup_nil, fun query slot =>
    ⟨fun ⟨_, member, _⟩ => absurd member List.not_mem_nil, fun ⟨_, present, _⟩ => by simp [GpaCache.new] at present⟩⟩

/-- What one cleanup evicts: of each kind the first queries in slot order, pinned ones down to their cap, and
an unpinned one only while there is no room yet. -/
structure Orderly (cache : GpaCache Query) (bytesToFree : ℕ) (after : GpaCache Query) : Prop where
  prefixes : (listed cache.queriesForSlot).Pairwise fun first second =>
    (cache.queries.lookup first).map (cache.config.isPinnedSize ·.size) =
        (cache.queries.lookup second).map (cache.config.isPinnedSize ·.size) →
      after.queries.lookup second = none → after.queries.lookup first = none
  capped : cache.pinnedSize > cache.config.pinnedThreshold → after.pinnedSize ≤ cache.config.pinnedThreshold
  needed : ∀ front query back cached, listed cache.queriesForSlot = front ++ query :: back →
    after.queries.lookup query = none → cache.queries.lookup query = some cached →
    cache.config.isPinnedSize cached.size = false →
    cache.config.maxTotalBytes - cache.size +
      ((front.filter fun other => (after.queries.lookup other).isNone).map fun other =>
        (cache.queries.lookup other).elim 0 CachedQuery.size).sum < bytesToFree

/-- What a cleanup comes to, whichever exact subtraction the counters use. -/
structure CleanedUp (cache : GpaCache Query) (bytesToFree : ℕ) (after : GpaCache Query) (bytesFreed : Option ℕ) :
    Prop where
  accounts : after.Accounts
  config : after.config = cache.config
  shrinks : ∀ query, after.queries.lookup query = cache.queries.lookup query ∨ after.queries.lookup query = none
  orderly : cache.Orderly bytesToFree after
  roomy : bytesFreed = none → bytesToFree ≤ after.config.maxTotalBytes - after.size
  room : ∀ bytes ∈ bytesFreed, bytes = after.config.maxTotalBytes - after.size

/-- A cleanup that has nothing to do. -/
theorem Accounts.cleanedUp_self {bytesToFree : ℕ} (accounts : cache.Accounts)
    (room : bytesToFree ≤ cache.config.maxTotalBytes - cache.size)
    (pinned : cache.pinnedSize ≤ cache.config.pinnedThreshold) : cache.CleanedUp bytesToFree cache none := by
  have present : ∀ query ∈ listed cache.queriesForSlot, cache.queries.lookup query ≠ none := by
    intro query member
    obtain ⟨cached, held⟩ := accounts.filed.mem_listed_iff.mp member
    rw [held]
    exact Option.some_ne_none cached
  refine ⟨accounts, rfl, fun _ => Or.inl rfl, ⟨?_, fun exceeded => absurd pinned (not_le.mpr exceeded), ?_⟩,
    fun _ => room, fun _ member => absurd member (Option.not_mem_none _)⟩
  · refine List.pairwise_of_forall_mem_list fun first _ second member _ gone => ?_
    exact absurd gone (present second member)
  · intro front query back cached split gone held
    rw [held] at gone
    contradiction

theorem Accounts.cleanup (accounts : cache.Accounts) (bytesToFree : ℕ) :
    ∃ after bytesFreed evicted, cache.CleanedUp bytesToFree after bytesFreed ∧
      ∀ sub : Subtractions, sub.request = saturatingSub → Exact sub.counters →
        cache.cleanupOldQueries sub bytesToFree = some (after, bytesFreed, evicted) := by
  have bounded : ¬ cache.config.maxTotalBytes < cache.size := not_lt.mpr accounts.fits
  by_cases idle : (!decide (cache.config.maxTotalBytes - cache.size < bytesToFree) &&
      !decide (cache.pinnedSize > cache.config.pinnedThreshold)) = true
  · have met := idle
    simp only [Bool.and_eq_true, Bool.not_eq_true', decide_eq_false_iff_not, not_lt, gt_iff_lt] at met
    refine ⟨cache, none, [], accounts.cleanedUp_self met.1 met.2, fun sub request exactly => ?_⟩
    rw [cleanupOldQueries, if_neg bounded, request]
    simp only [saturatingSub, Option.bind_eq_bind, Option.bind_some, idle, if_true]
    rfl
  · let walk : Eviction Query := ⟨cache.queries, cache.size, cache.pinnedSize, 0, []⟩
    have held : ∀ query ∈ listed cache.queriesForSlot, ∃ cached, walk.queries.lookup query = some cached :=
      fun query member => accounts.filed.mem_listed_iff.mp member
    have start : Counted cache.config walk.queries walk.size walk.pinnedSize := accounts.counted
    obtain ⟨last, walked, retained⟩ := Eviction.retainSlots_eq
      (bytesToFree - (cache.config.maxTotalBytes - cache.size)) start accounts.filed.nonempty accounts.filed.distinct held
    have agree : ∀ query ∈ listed cache.queriesForSlot, walk.queries.lookup query = cache.queries.lookup query :=
      fun _ _ => rfl
    have freed := walked.freed start
    have counted := walked.counted start
    have smaller : last.size ≤ cache.size := by
      change last.bytesFreed + last.size = 0 + cache.size at freed
      omega
    have within : last.size ≤ cache.config.maxTotalBytes := smaller.trans accounts.fits
    let after : GpaCache Query := { cache with
      queries := last.queries
      queriesForSlot := trim (fun query => (last.queries.lookup query).isSome) cache.queriesForSlot
      size := last.size
      pinnedSize := last.pinnedSize }
    refine ⟨after, some (last.bytesFreed + (cache.config.maxTotalBytes - cache.size)), last.evicted,
      ⟨⟨counted, within, ?_⟩, rfl, walked.shrinks, ⟨?_, ?_, ?_⟩, ?_, ?_⟩, fun sub request exactly => ?_⟩
    · refine accounts.filed.trim _ fun query => ?_
      change last.queries.lookup query = _
      rcases walked.shrinks query with same | gone
      · rw [same]
        split
        · rfl
        · next none => exact Option.not_isSome_iff_eq_none.mp none
      · rw [gone]
        rfl
    · exact walked.evictsPrefix accounts.filed.distinct agree
    · intro _
      refine walked.capped start fun query cached present => ?_
      exact accounts.filed.mem_listed_iff.mpr ⟨cached, present⟩
    · intro front query back cached split gone present unpinned
      have short := walked.needed accounts.filed.distinct agree split gone present unpinned
      change 0 + _ < bytesToFree - (cache.config.maxTotalBytes - cache.size) at short
      change _ + (List.map _ (front.filter fun other => (last.queries.lookup other).isNone)).sum < _
      omega
    · intro none
      contradiction
    · intro bytes room
      cases room
      change last.bytesFreed + last.size = 0 + cache.size at freed
      change last.bytesFreed + (cache.config.maxTotalBytes - cache.size) = cache.config.maxTotalBytes - last.size
      have fits := accounts.fits
      omega
    · rw [cleanupOldQueries, if_neg bounded, request]
      simp only [saturatingSub, Option.bind_eq_bind, Option.bind_some, idle, Bool.false_eq_true, if_false]
      rw [retained sub.counters exactly]
      rfl

/-! ## Removing and installing -/

/-- What an event comes to: a query is only ever replaced by a version of a higher slot. -/
structure Stepped (cache after : GpaCache Query) : Prop where
  accounts : after.Accounts
  config : after.config = cache.config
  replaces : ∀ query old new, cache.queries.lookup query = some old → after.queries.lookup query = some new →
    new = old ∨ old.slot < new.slot

theorem CleanedUp.stepped {bytesToFree : ℕ} {bytesFreed : Option ℕ}
    (cleaned : cache.CleanedUp bytesToFree after bytesFreed) : cache.Stepped after := by
  refine ⟨cleaned.accounts, cleaned.config, fun query old new before now => ?_⟩
  rcases cleaned.shrinks query with same | gone
  · rw [same, before, Option.some.injEq] at now
    exact Or.inl now.symm
  · rw [gone] at now
    contradiction

private theorem Accounts.stepped_self (accounts : cache.Accounts) : cache.Stepped cache := by
  refine ⟨accounts, rfl, fun query old new before now => ?_⟩
  rw [before, Option.some.injEq] at now
  exact Or.inl now.symm

theorem Accounts.removeQuery (accounts : cache.Accounts) (query : Query) :
    ∃ after, cache.Stepped after ∧ ∀ sub : Subtractions, Exact sub.counters →
      cache.removeQuery sub query = some after := by
  cases present : cache.queries.lookup query with
  | none =>
    refine ⟨cache, accounts.stepped_self, fun sub _ => ?_⟩
    rw [GpaCache.removeQuery, present]
  | some removed =>
    obtain ⟨covered, pinnedCovered⟩ := accounts.counted.covers present
    let after : GpaCache Query := { cache with
      queries := cache.queries.erase query
      queriesForSlot := dropFromSlot query removed.slot cache.queriesForSlot
      size := cache.size - removed.size
      pinnedSize := cache.pinnedSize - pinnedBytes cache.config removed }
    refine ⟨after, ⟨⟨accounts.counted.erase present, (Nat.sub_le _ _).trans accounts.fits, ?_⟩, rfl, ?_⟩,
      fun sub exactly => ?_⟩
    · change Filed (dropFromSlot query removed.slot cache.queriesForSlot) _
      rw [accounts.filed.dropFromSlot_eq present]
      refine accounts.filed.trim _ fun other => ?_
      change (cache.queries.erase query).lookup other = _
      rw [HashMap.lookup_erase]
      split
      · next same => simp [same]
      · next differs => simp [differs]
    · intro other old new before now
      change (cache.queries.erase query).lookup other = some new at now
      rw [HashMap.lookup_erase] at now
      split at now
      · contradiction
      · rw [before, Option.some.injEq] at now
        exact Or.inl now.symm
    · rw [GpaCache.removeQuery, present]
      cases pinned : cache.config.isPinnedSize removed.size with
      | true =>
        rw [pinnedBytes_of_pinned pinned] at pinnedCovered
        simp only [pinned, exactly _ _ covered, exactly _ _ pinnedCovered, Option.bind_eq_bind, Option.bind_some,
          if_true, after, pinnedBytes_of_pinned pinned]
        rfl
      | false =>
        simp only [pinned, exactly _ _ covered, Option.bind_eq_bind, Option.bind_some, Bool.false_eq_true, if_false,
          after, pinnedBytes_of_unpinned pinned, Nat.sub_zero]
        rfl

/-- Filing a new version under its slot, in the place of the one it replaces. -/
theorem Accounts.filed_insert (accounts : cache.Accounts) (query : Query) (entry : CachedQuery) :
    Filed (pushForSlot query entry.slot (((cache.queries.lookup query).map CachedQuery.slot).elim cache.queriesForSlot
        fun prevSlot => dropFromSlot query prevSlot cache.queriesForSlot))
      fun other => (cache.queries.insert query entry).lookup other := by
  have dropped : Filed (((cache.queries.lookup query).map CachedQuery.slot).elim cache.queriesForSlot
      fun prevSlot => dropFromSlot query prevSlot cache.queriesForSlot)
      fun other => if other = query then none else cache.queries.lookup other := by
    cases present : cache.queries.lookup query with
    | none =>
      have same : (fun other => if other = query then none else cache.queries.lookup other) =
          fun other => cache.queries.lookup other := by
        funext other
        split
        · next same => rw [same, present]
        · rfl
      rw [same]
      exact accounts.filed
    | some older =>
      rw [Option.map_some, Option.elim_some, accounts.filed.dropFromSlot_eq present]
      refine accounts.filed.trim _ fun other => ?_
      split
      · next same => simp [same]
      · next differs => simp [differs]
  refine dropped.push (if_pos rfl) fun other => ?_
  rw [HashMap.lookup_insert]
  split
  · rfl
  · rfl

/-- The entry a job installs. -/
def FinalizeJob.entry (job : FinalizeJob Query) : CachedQuery :=
  ⟨job.accounts.foldl (fun accounts item => accounts.insert item.1 item.2) ∅, job.slot, job.queryBytes, job.cacheHits⟩

/-- A job's install: what is cached after it was cached before, or is the job's entry. -/
theorem Accounts.finalize (accounts : cache.Accounts) (job : FinalizeJob Query) :
    ∃ after, cache.Stepped after ∧
      (∀ query held, after.queries.lookup query = some held →
        cache.queries.lookup query = some held ∨ query = job.normalizedQuery ∧ held = job.entry) ∧
      ∀ sub : Subtractions, sub.request = saturatingSub → Exact sub.counters → cache.finalize sub job = some after := by
  by_cases stale : ((cache.queries.lookup job.normalizedQuery).any fun current => current.slot ≥ job.slot) = true
  · refine ⟨cache, accounts.stepped_self, fun _ _ present => Or.inl present, fun sub _ _ => ?_⟩
    rw [GpaCache.finalize, if_pos stale]
  obtain ⟨cleanedCache, bytesFreed, evicted, cleaned, ran⟩ := accounts.cleanup job.queryBytes
  have kept : ∀ query held, cleanedCache.queries.lookup query = some held → cache.queries.lookup query = some held := by
    intro query held present
    rcases cleaned.shrinks query with same | gone
    · rwa [same] at present
    · rw [gone] at present
      contradiction
  by_cases short : (bytesFreed.any fun bytesFreed => decide (bytesFreed < job.queryBytes)) = true
  · refine ⟨cleanedCache, cleaned.stepped, fun query held present => Or.inl (kept query held present),
      fun sub request exactly => ?_⟩
    rw [GpaCache.finalize, if_neg stale, ran sub request exactly]
    simp only [Option.bind_eq_bind, Option.bind_some, short, if_true]
  · let entry := job.entry
    let older := cleanedCache.queries.lookup job.normalizedQuery
    let after : GpaCache Query := { cleanedCache with
      queries := cleanedCache.queries.insert job.normalizedQuery entry
      queriesForSlot := pushForSlot job.normalizedQuery job.slot ((older.map CachedQuery.slot).elim
        cleanedCache.queriesForSlot fun prevSlot => dropFromSlot job.normalizedQuery prevSlot cleanedCache.queriesForSlot)
      size := cleanedCache.size + job.queryBytes - older.elim 0 CachedQuery.size
      pinnedSize := cleanedCache.pinnedSize + pinnedBytes cleanedCache.config entry -
        older.elim 0 (pinnedBytes cleanedCache.config) }
    have room : cleanedCache.size + job.queryBytes ≤ cleanedCache.config.maxTotalBytes := by
      have fits := cleaned.accounts.fits
      cases freed : bytesFreed with
      | none =>
        have enough := cleaned.roomy freed
        omega
      | some bytes =>
        have exactly := cleaned.room bytes freed
        rw [freed, Option.any_some, decide_eq_true_eq] at short
        omega
    refine ⟨after, ⟨⟨cleaned.accounts.counted.insert job.normalizedQuery entry, (Nat.sub_le _ _).trans room,
      cleaned.accounts.filed_insert job.normalizedQuery entry⟩, cleaned.config, fun query old new before now => ?_⟩,
      fun query held present => ?_, fun sub request exactly => ?_⟩
    · change (cleanedCache.queries.insert job.normalizedQuery entry).lookup query = some new at now
      rw [HashMap.lookup_insert] at now
      split at now
      · next same =>
        rw [same] at before
        cases now
        rw [before, Option.any_some, decide_eq_true_eq, not_le] at stale
        exact Or.inr stale
      · exact cleaned.stepped.replaces query old new before now
    · change (cleanedCache.queries.insert job.normalizedQuery entry).lookup query = some held at present
      rw [HashMap.lookup_insert] at present
      split at present
      · next same =>
        cases present
        exact Or.inr ⟨same, rfl⟩
      · exact Or.inl (kept query held present)
    · rw [GpaCache.finalize, if_neg stale, ran sub request exactly]
      simp only [Option.bind_eq_bind, Option.bind_some, short, Bool.false_eq_true, if_false]
      have added : (if cleanedCache.config.isPinnedSize job.queryBytes then cleanedCache.pinnedSize + job.queryBytes
          else cleanedCache.pinnedSize) = cleanedCache.pinnedSize + pinnedBytes cleanedCache.config entry := by
        have size : entry.size = job.queryBytes := rfl
        rw [pinnedBytes, size]
        split
        · rfl
        · rfl
      rw [added]
      cases present : cleanedCache.queries.lookup job.normalizedQuery with
      | none =>
        simp only [Option.elim_none, Option.bind_some, after, older, present, Nat.sub_zero]
        rfl
      | some old =>
        obtain ⟨covered, pinnedCovered⟩ := cleaned.accounts.counted.covers present
        have reduced := exactly _ _ (covered.trans (Nat.le_add_right _ job.queryBytes))
        simp only [Option.elim_some, reduced, Option.bind_some, after, older, present]
        cases pinned : cleanedCache.config.isPinnedSize old.size with
        | true =>
          rw [pinnedBytes_of_pinned pinned] at pinnedCovered
          have pinnedReduced := exactly _ _
            (pinnedCovered.trans (Nat.le_add_right _ (pinnedBytes cleanedCache.config entry)))
          simp only [if_true, pinnedReduced, Option.bind_some, pinnedBytes_of_pinned pinned]
          rfl
        | false =>
          simp only [Bool.false_eq_true, if_false, Option.bind_some, pinnedBytes_of_unpinned pinned, Nat.sub_zero]
          rfl

/-! ## Runs -/

theorem Accounts.step (accounts : cache.Accounts) (event : CacheEvent Query) :
    ∃ after, cache.Stepped after ∧ ∀ sub : Subtractions, sub.request = saturatingSub → Exact sub.counters →
      cache.step sub event = some after := by
  cases event with
  | finalize job =>
    obtain ⟨after, stepped, -, ran⟩ := accounts.finalize job
    exact ⟨after, stepped, ran⟩
  | removeQuery query =>
    obtain ⟨after, stepped, ran⟩ := accounts.removeQuery query
    exact ⟨after, stepped, fun sub _ exactly => ran sub exactly⟩
  | cleanupOldQueries bytesToFree =>
    obtain ⟨after, _, _, cleaned, ran⟩ := accounts.cleanup bytesToFree
    refine ⟨after, cleaned.stepped, fun sub request exactly => ?_⟩
    rw [GpaCache.step, ran sub request exactly]
    rfl

/-- Every cache reached from an empty one accounts for exactly what it holds; its cleanups are orderly; and its next
event does the same with counters that may not saturate, and replaces a query only by a version of a higher slot. -/
theorem accounts_for_what_it_holds (config : GpaCacheConfig) {events : List (CacheEvent Query)} {cache : GpaCache Query}
    (run : Run (new config) (step saturating) (fun _ _ _ => True) events cache) :
    (cache.Accounts ∧ cache.config = config) ∧
      (∀ bytesToFree, ∃ after bytesFreed evicted,
        cache.cleanupOldQueries saturating bytesToFree = some (after, bytesFreed, evicted) ∧
          cache.Orderly bytesToFree after) ∧
      ∀ event, ∃ after, cache.step saturating event = some after ∧ cache.step checkedCounters event = some after ∧
        ∀ query old new, cache.queries.lookup query = some old → after.queries.lookup query = some new →
          new = old ∨ old.slot < new.slot := by
  have reached : cache.Accounts ∧ cache.config = config := by
    refine run.stateInvariant ⟨.new config, rfl⟩ fun _ cache event next ⟨accounts, same⟩ _ moves => ?_
    obtain ⟨after, stepped, ran⟩ := accounts.step event
    rw [ran saturating rfl exact_saturatingSub, Option.some.injEq] at moves
    rw [← moves]
    exact ⟨stepped.accounts, stepped.config.trans same⟩
  refine ⟨reached, fun bytesToFree => ?_, fun event => ?_⟩
  · obtain ⟨after, bytesFreed, evicted, cleaned, ran⟩ := reached.1.cleanup bytesToFree
    exact ⟨after, bytesFreed, evicted, ran saturating rfl exact_saturatingSub, cleaned.orderly⟩
  · obtain ⟨after, stepped, ran⟩ := reached.1.step event
    exact ⟨after, ran saturating rfl exact_saturatingSub, ran checkedCounters rfl exact_checkedSub, stepped.replaces⟩

private def smallConfig : GpaCacheConfig := ⟨100, some 40, some 60⟩

private def pinnedThenUnpinned : List (CacheEvent ℕ) :=
  [.finalize ⟨1, [], 50, 5, 0⟩, .finalize ⟨2, [], 30, 6, 0⟩, .finalize ⟨2, [(7, [1])], 20, 8, 1⟩,
    .finalize ⟨3, [], 40, 9, 0⟩, .removeQuery 3, .finalize ⟨4, [], 45, 10, 0⟩]

theorem accounts_after_an_eviction :
    ∃ cache : GpaCache ℕ, Run (new smallConfig) (step saturating) (fun _ _ _ => True) pinnedThenUnpinned cache ∧
      cache.size = 95 ∧ cache.Accounts := by
  have replayed : (Run.replay (step saturating) (fun _ _ _ => True) [] (new smallConfig) pinnedThenUnpinned).any
      (fun cache => decide (cache.size = 95)) = true := by decide +kernel
  obtain ⟨cache, ran, size⟩ := (Option.any_eq_true _ _).mp replayed
  exact ⟨cache, Run.replayed ran, of_decide_eq_true size, (accounts_for_what_it_holds smallConfig (Run.replayed ran)).1.1⟩

/-- The bytes that are free already are taken off the bytes to free before the cleanup knows that nothing is to do. -/
theorem request_saturates_on_an_empty_cache :
    ∃ cache : GpaCache ℕ, Run (new smallConfig) (step saturating) (fun _ _ _ => True) [] cache ∧
      cache.step allChecked (.cleanupOldQueries 1) = none :=
  ⟨new smallConfig, .start, by decide⟩

end GpaCache

end Cloudbreak.Model.Gpa
