import Cloudbreak.Model.Account
import Cloudbreak.ToMathlib.HashMap

/-! # The cache of program-account queries

Queries under their normalized form, the slots they were served for, and two byte counters that are kept
along. Installing a query may first clean up old ones, and an inconsistent query is removed. Subtractions
on the counters saturate in the source; they are a parameter here, so that a checked run can be compared.
-/

namespace Cloudbreak.Model.Gpa

open Cloudbreak.ToMathlib

abbrev Bytes := List UInt8

/-- `maxPinnedBytes` is what the pinned ratio makes of the total, in whole bytes. -/
structure GpaCacheConfig where
  maxTotalBytes : ℕ
  maxBytesQueryCleanup : Option ℕ
  maxPinnedBytes : Option ℕ
deriving DecidableEq, Repr

structure CachedQuery where
  accounts : HashMap Pubkey Bytes
  slot : ℕ
  size : ℕ
  cacheHits : ℕ

/-- The slots ascend; each bucket lists its queries in the order they came. -/
structure GpaCache (Query : Type) where
  queries : HashMap Query CachedQuery
  queriesForSlot : List (ℕ × List Query)
  config : GpaCacheConfig
  size : ℕ
  pinnedSize : ℕ

/-- How a counter is reduced. -/
abbrev Subtraction := ℕ → ℕ → Option ℕ

def saturatingSub : Subtraction := fun total bytes => some (total - bytes)

/-- Fails where the saturating one would saturate. -/
def checkedSub : Subtraction := fun total bytes => if bytes ≤ total then some (total - bytes) else none

/-- The subtractions on the two counters, and the one on the bytes a cleanup is asked to free. -/
structure Subtractions where
  counters : Subtraction
  request : Subtraction

/-- As the source has them. -/
def saturating : Subtractions := ⟨saturatingSub, saturatingSub⟩

def checkedCounters : Subtractions := ⟨checkedSub, saturatingSub⟩

def allChecked : Subtractions := ⟨checkedSub, checkedSub⟩

/-- Whether a query of the size is skipped by the cleanup. -/
def GpaCacheConfig.isPinnedSize (config : GpaCacheConfig) (size : ℕ) : Bool :=
  config.maxBytesQueryCleanup.any fun maxEvictable => size > maxEvictable

/-- The bytes that pinned queries may hold together; unbounded when no ratio is set. -/
def GpaCacheConfig.pinnedThreshold (config : GpaCacheConfig) : ℕ := config.maxPinnedBytes.getD (2 ^ 64 - 1)

/-! ## Slot buckets -/

section Buckets

variable {Query : Type} [DecidableEq Query]

/-- Drops a query from the bucket of a slot, and the bucket once it is empty. -/
def dropFromSlot (query : Query) (slot : ℕ) (queriesForSlot : List (ℕ × List Query)) : List (ℕ × List Query) :=
  queriesForSlot.filterMap fun item =>
    if item.1 = slot then
      let bucket := item.2.filter fun other => other ≠ query
      if bucket = [] then none else some (item.1, bucket)
    else some item

/-- Appends a query to the bucket of a slot. -/
def pushForSlot (query : Query) (slot : ℕ) : List (ℕ × List Query) → List (ℕ × List Query)
  | [] => [(slot, [query])]
  | (other, bucket) :: rest =>
    if slot < other then (slot, [query]) :: (other, bucket) :: rest
    else if slot = other then (other, bucket ++ [query]) :: rest
    else (other, bucket) :: pushForSlot query slot rest

end Buckets

/-! ## The cleanup -/

/-- What the walk over the buckets mutates. -/
structure Eviction (Query : Type) where
  queries : HashMap Query CachedQuery
  size : ℕ
  pinnedSize : ℕ
  bytesFreed : ℕ
  evicted : List CachedQuery

namespace Eviction

variable {Query : Type} [DecidableEq Query]

def needSize (walk : Eviction Query) (bytesToFree : ℕ) : Bool := walk.bytesFreed < bytesToFree

def needPinned (walk : Eviction Query) (config : GpaCacheConfig) : Bool := walk.pinnedSize > config.pinnedThreshold

/-- One query of a bucket, and whether it stays there. -/
def retainQuery (sub : Subtraction) (config : GpaCacheConfig) (bytesToFree : ℕ) (walk : Eviction Query)
    (query : Query) : Option (Eviction Query × Bool) :=
  let needSize := walk.needSize bytesToFree
  let needPinned := walk.needPinned config
  if !needSize && !needPinned then some (walk, true)
  else
    let isPinned := (walk.queries.lookup query).any fun cached => config.isPinnedSize cached.size
    if isPinned && !needPinned then some (walk, true)
    else if !isPinned && !needSize then some (walk, true)
    else
      match walk.queries.lookup query with
      | none => some (walk, false)
      | some cached => do
        let size ← sub walk.size cached.size
        let pinnedSize ← if isPinned then sub walk.pinnedSize cached.size else some walk.pinnedSize
        return (⟨walk.queries.erase query, size, pinnedSize, walk.bytesFreed + cached.size,
          walk.evicted ++ [cached]⟩, false)

def retainBucket (sub : Subtraction) (config : GpaCacheConfig) (bytesToFree : ℕ) (walk : Eviction Query) :
    List Query → Option (Eviction Query × List Query)
  | [] => some (walk, [])
  | query :: rest => do
    let (walk, stays) ← walk.retainQuery sub config bytesToFree query
    let (walk, bucket) ← retainBucket sub config bytesToFree walk rest
    return (walk, if stays then query :: bucket else bucket)

/-- The walk over the slots, oldest first. Once both budgets are met the remaining slots are left alone. -/
def retainSlots (sub : Subtraction) (config : GpaCacheConfig) (bytesToFree : ℕ) (walk : Eviction Query) :
    List (ℕ × List Query) → Option (Eviction Query × List (ℕ × List Query))
  | [] => some (walk, [])
  | (slot, bucket) :: rest => do
    if !walk.needSize bytesToFree && !walk.needPinned config then
      let (walk, rest) ← retainSlots sub config bytesToFree walk rest
      return (walk, (slot, bucket) :: rest)
    else
      let (walk, bucket) ← walk.retainBucket sub config bytesToFree bucket
      let (walk, rest) ← retainSlots sub config bytesToFree walk rest
      return (walk, if bucket = [] then rest else (slot, bucket) :: rest)

end Eviction

namespace GpaCache

variable {Query : Type} [DecidableEq Query]

def new (config : GpaCacheConfig) : GpaCache Query := ⟨∅, [], config, 0, 0⟩

/-- Files a query under its slot, and drops it from the slot of the version it replaces. -/
def insertQueryForSlot (cache : GpaCache Query) (query : Query) (slot : ℕ) (olderSlot : Option ℕ) : GpaCache Query :=
  let queriesForSlot := olderSlot.elim cache.queriesForSlot fun prevSlot =>
    dropFromSlot query prevSlot cache.queriesForSlot
  { cache with queriesForSlot := pushForSlot query slot queriesForSlot }

/-- Removes an inconsistent query, so that a later request builds it anew. -/
def removeQuery (sub : Subtractions) (cache : GpaCache Query) (query : Query) : Option (GpaCache Query) :=
  match cache.queries.lookup query with
  | none => some cache
  | some removed => do
    let size ← sub.counters cache.size removed.size
    let pinnedSize ← if cache.config.isPinnedSize removed.size then sub.counters cache.pinnedSize removed.size
      else some cache.pinnedSize
    return { cache with
      queries := cache.queries.erase query
      queriesForSlot := dropFromSlot query removed.slot cache.queriesForSlot
      size, pinnedSize }

/-- Deletes the oldest queries until the bytes fit. Returns the room there is then, if it had to clean up, and
the evicted queries. -/
def cleanupOldQueries (sub : Subtractions) (cache : GpaCache Query) (bytesToFree : ℕ) :
    Option (GpaCache Query × Option ℕ × List CachedQuery) :=
  if cache.config.maxTotalBytes < cache.size then some (cache, none, [])
  else do
    let availableBytes := cache.config.maxTotalBytes - cache.size
    let sizeCleanupNeeded := decide (availableBytes < bytesToFree)
    let bytesToFree ← sub.request bytesToFree availableBytes
    let pinnedCleanupNeeded := decide (cache.pinnedSize > cache.config.pinnedThreshold)
    if !sizeCleanupNeeded && !pinnedCleanupNeeded then return (cache, none, [])
    else
      let (walk, queriesForSlot) ← Eviction.retainSlots sub.counters cache.config bytesToFree
        ⟨cache.queries, cache.size, cache.pinnedSize, 0, []⟩ cache.queriesForSlot
      return ({ cache with queries := walk.queries, queriesForSlot, size := walk.size, pinnedSize := walk.pinnedSize },
        some (walk.bytesFreed + availableBytes), walk.evicted)

/-- A served query on its way into the cache. -/
structure FinalizeJob (Query : Type) where
  normalizedQuery : Query
  accounts : List (Pubkey × Bytes)
  queryBytes : ℕ
  slot : ℕ
  cacheHits : ℕ

/-- Installs the query, unless a version as new is cached or there is no room for it. -/
def finalize (sub : Subtractions) (cache : GpaCache Query) (job : FinalizeJob Query) : Option (GpaCache Query) :=
  let newEntry : CachedQuery :=
    ⟨job.accounts.foldl (fun accounts item => accounts.insert item.1 item.2) ∅, job.slot, job.queryBytes, job.cacheHits⟩
  if (cache.queries.lookup job.normalizedQuery).any fun current => current.slot ≥ job.slot then some cache
  else do
    let (cache, bytesFreed, _) ← cache.cleanupOldQueries sub job.queryBytes
    if bytesFreed.any fun bytesFreed => bytesFreed < job.queryBytes then some cache
    else
      let olderQuery := cache.queries.lookup job.normalizedQuery
      let size := cache.size + job.queryBytes
      let size ← olderQuery.elim (some size) fun older => sub.counters size older.size
      let pinnedSize := if cache.config.isPinnedSize job.queryBytes then cache.pinnedSize + job.queryBytes
        else cache.pinnedSize
      let pinnedSize ← olderQuery.elim (some pinnedSize) fun older =>
        if cache.config.isPinnedSize older.size then sub.counters pinnedSize older.size else some pinnedSize
      let cache := { cache with
        queries := cache.queries.insert job.normalizedQuery newEntry
        size, pinnedSize }
      return cache.insertQueryForSlot job.normalizedQuery job.slot (olderQuery.map CachedQuery.slot)

inductive CacheEvent (Query : Type) where
  | finalize (job : FinalizeJob Query)
  | removeQuery (query : Query)
  | cleanupOldQueries (bytesToFree : ℕ)

def step (sub : Subtractions) (cache : GpaCache Query) : CacheEvent Query → Option (GpaCache Query)
  | .finalize job => cache.finalize sub job
  | .removeQuery query => cache.removeQuery sub query
  | .cleanupOldQueries bytesToFree => (cache.cleanupOldQueries sub bytesToFree).map Prod.fst

end GpaCache

end Cloudbreak.Model.Gpa
