import Cloudbreak.Model.QueryTracker.Demand
import Cloudbreak.ToMathlib.Run

/-! # Demand is counted at least once

For every pattern, what is buffered or under way and what succeeded batches delivered make up the accepted
requests, and the table holds what was delivered and what failed batches had committed. So once nothing is
left to send, the counts are exact if and only if no failed batch had committed an observation.
-/

namespace Cloudbreak.Model.QueryTracker

open Cloudbreak.ToMathlib
open Filters (U64 toI64 MemcmpLibrary Digest RpcProgramAccountsConfig IndexIdentity)

variable {Memcmp : Type}

/-- The three counters of a pattern. -/
inductive Counter
  | count
  | cost
  | failed
deriving DecidableEq, Repr

def TrackObservation.amount (observation : TrackObservation Memcmp) : Counter → ℕ
  | .count => observation.count
  | .cost => observation.totalCostUs
  | .failed => observation.failedCount

def DemandRow.amount (row : DemandRow) : Counter → ℤ
  | .count => row.demandCount
  | .cost => row.totalCostUs
  | .failed => row.failedCount

/-- The largest total that the counter's types hold: the cost is signed in the table. -/
def Counter.max : Counter → ℕ
  | .count => u32Max
  | .cost => 2 ^ 63 - 1
  | .failed => u32Max

/-- The amount that a list of entries holds for a pattern. -/
def totalOf (key : String) (counter : Counter) (entries : List (Entry Memcmp)) : ℕ :=
  (entries.filterMap fun entry => if entry.1 = key then some (entry.2.amount counter) else none).sum

/-- The amount that the table holds for a pattern. -/
def stored (store : Store) (key : String) (counter : Counter) : ℤ :=
  (store.lookup key).elim 0 fun row => row.amount counter

/-! ## Totals -/

section Totals

variable {key : String} {counter : Counter}

@[simp] theorem totalOf_nil : totalOf key counter ([] : List (Entry Memcmp)) = 0 := rfl

theorem totalOf_append (first second : List (Entry Memcmp)) :
    totalOf key counter (first ++ second) = totalOf key counter first + totalOf key counter second := by
  rw [totalOf, List.filterMap_append, List.sum_append]
  rfl

theorem totalOf_cons (entry : Entry Memcmp) (entries : List (Entry Memcmp)) :
    totalOf key counter (entry :: entries) =
      (if entry.1 = key then entry.2.amount counter else 0) + totalOf key counter entries := by
  rw [totalOf, List.filterMap_cons]
  split
  · next other =>
    split at other
    · cases other
    · next different => rw [if_neg different, Nat.zero_add, totalOf]
  · next amount same =>
    split at same
    · next own =>
      obtain rfl := Option.some.inj same
      rw [if_pos own, List.sum_cons, totalOf]
    · cases same

private theorem totalOf_perm {first second : List (Entry Memcmp)} (perm : first.Perm second) :
    totalOf key counter first = totalOf key counter second :=
  (perm.filterMap _).sum_eq

theorem totalOf_toList (buffer : QueryBuffer Memcmp) :
    totalOf key counter buffer.toList = (buffer.lookup key).elim 0 fun entry => entry.amount counter := by
  rw [totalOf, HashMap.filterMap_toList buffer key fun entry => entry.amount counter]
  cases buffer.lookup key <;> simp

private theorem le_totalOf {entry : Entry Memcmp} {entries : List (Entry Memcmp)} (member : entry ∈ entries) :
    entry.2.amount counter ≤ totalOf entry.1 counter entries := by
  induction entries with
  | nil => exact absurd member (by simp)
  | cons first entries ih =>
    rw [totalOf_cons]
    rcases List.mem_cons.mp member with rfl | member
    · rw [if_pos rfl]
      exact Nat.le_add_right _ _
    · exact le_trans (ih member) (Nat.le_add_left _ _)

end Totals

/-! ## Counters below their limits -/

private theorem amount_merge {entry other : TrackObservation Memcmp}
    (below : ∀ counter : Counter, entry.amount counter + other.amount counter ≤ counter.max) (counter : Counter) :
    (entry.merge other).amount counter = entry.amount counter + other.amount counter := by
  have bound := below counter
  cases counter
  · exact min_eq_left bound
  · have bound' : entry.totalCostUs + other.totalCostUs ≤ 2 ^ 63 - 1 := bound
    exact min_eq_left (by rw [u64Max]; omega)
  · exact min_eq_left bound

/-- Counting a request adds the amounts of an observation of that request alone. -/
theorem amount_observe (entry : TrackObservation Memcmp) (program : Pubkey)
    (config : Option (RpcProgramAccountsConfig Memcmp)) (costUs : ℕ) (failed : Bool)
    (below : ∀ counter : Counter, entry.amount counter +
      ((TrackObservation.new program config).observe costUs failed).amount counter ≤ counter.max)
    (counter : Counter) :
    (entry.observe costUs failed).amount counter =
      entry.amount counter + ((TrackObservation.new program config).observe costUs failed).amount counter := by
  have bound := below counter
  have one : saturatingAdd u32Max 0 1 = 1 := by decide
  cases counter with
  | count =>
    change entry.count + saturatingAdd u32Max 0 1 ≤ u32Max at bound
    change saturatingAdd u32Max entry.count 1 = entry.count + saturatingAdd u32Max 0 1
    rw [one] at bound ⊢
    exact min_eq_left bound
  | cost =>
    change entry.totalCostUs + min (0 + costUs) u64Max ≤ 2 ^ 63 - 1 at bound
    change min (entry.totalCostUs + costUs) u64Max = entry.totalCostUs + min (0 + costUs) u64Max
    rw [u64Max] at bound ⊢
    omega
  | failed =>
    cases failed with
    | false => rfl
    | true =>
      change entry.failedCount + saturatingAdd u32Max 0 1 ≤ u32Max at bound
      change saturatingAdd u32Max entry.failedCount 1 = entry.failedCount + saturatingAdd u32Max 0 1
      rw [one] at bound ⊢
      exact min_eq_left bound

theorem asI64_of_le {value : ℕ} (bound : value ≤ 2 ^ 63 - 1) : asI64 value = value := by
  have small : (Fin.ofNat (2 ^ 64) value).val = value := by
    rw [Fin.val_ofNat]
    exact Nat.mod_eq_of_lt (by omega)
  rw [asI64, toI64, small, if_pos (by omega)]

theorem Counter.max_le (counter : Counter) : counter.max ≤ 2 ^ 63 - 1 := by
  cases counter <;> decide

/-! ## The tracker -/

theorem bigintAdd_eq_some {left right sum : ℤ} (added : bigintAdd left right = some sum) : sum = left + right := by
  rw [bigintAdd] at added
  split at added
  · exact (Option.some.inj added).symm
  · cases added

theorem stored_insert (store : Store) (key other : String) (row : DemandRow) (counter : Counter) :
    stored (store.insert key row) other counter = if other = key then row.amount counter else stored store other counter := by
  rw [stored, HashMap.lookup_insert]
  split <;> rfl

private theorem stored_recordDemand {store next : Store} {key : String} {observation : TrackObservation Memcmp}
    (below : ∀ counter : Counter, observation.amount counter ≤ counter.max)
    (recorded : recordDemand store key observation = some next) (other : String) (counter : Counter) :
    stored next other counter =
      stored store other counter + if key = other then (observation.amount counter : ℤ) else 0 := by
  have count := asI64_of_le (le_trans (below .count) (Counter.max_le .count))
  have cost := asI64_of_le (le_trans (below .cost) (Counter.max_le .cost))
  have failed := asI64_of_le (le_trans (below .failed) (Counter.max_le .failed))
  change asI64 observation.count = observation.count at count
  change asI64 observation.totalCostUs = observation.totalCostUs at cost
  change asI64 observation.failedCount = observation.failedCount at failed
  rw [recordDemand] at recorded
  split at recorded
  · next missing =>
    obtain rfl := Option.some.inj recorded
    rw [stored_insert, count, cost, failed]
    rcases eq_or_ne other key with rfl | different
    · rw [if_pos rfl, if_pos rfl, stored, missing]
      cases counter <;> simp [DemandRow.amount, TrackObservation.amount]
    · rw [if_neg different, if_neg different.symm, add_zero]
  · next row present =>
    simp only [Option.bind_eq_bind, Option.bind_eq_some_iff, Option.pure_def, Option.some.injEq] at recorded
    obtain ⟨counts, countAdded, costs, costAdded, failures, failedAdded, rfl⟩ := recorded
    obtain rfl := bigintAdd_eq_some countAdded
    obtain rfl := bigintAdd_eq_some costAdded
    obtain rfl := bigintAdd_eq_some failedAdded
    rw [stored_insert, count, cost, failed]
    rcases eq_or_ne other key with rfl | different
    · rw [if_pos rfl, if_pos rfl, stored, present]
      cases counter <;> rfl
    · rw [if_neg different, if_neg different.symm, add_zero]

section System

variable {library : MemcmpLibrary Memcmp} {blake3 : List UInt8 → Digest}

/-- The entry is filed under the pattern that the tracker will find, and counts a request. -/
def Filed (library : MemcmpLibrary Memcmp) (blake3 : List UInt8 → Digest) (entry : Entry Memcmp) : Prop :=
  identify library blake3 entry.2.program entry.2.config = some entry.1 ∧ 1 ≤ entry.2.count

private theorem stored_applyBatch {entries : List (Entry Memcmp)}
    (filed : ∀ entry ∈ entries, Filed library blake3 entry)
    (below : ∀ entry ∈ entries, ∀ counter : Counter, entry.2.amount counter ≤ counter.max) {store next : Store}
    (applied : applyBatch library blake3 store (entries.map Prod.snd) = some next) (key : String) (counter : Counter) :
    stored next key counter = stored store key counter + totalOf key counter entries := by
  induction entries generalizing store with
  | nil =>
    obtain rfl := Option.some.inj applied
    simp
  | cons entry entries ih =>
    rw [List.map_cons, applyBatch, List.foldlM_cons, Option.bind_eq_bind, Option.bind_eq_some_iff] at applied
    obtain ⟨between, first, rest⟩ := applied
    rw [applyObservation, (filed entry (List.mem_cons_self ..)).1] at first
    have later := ih (fun other member => filed other (List.mem_cons_of_mem _ member))
      (fun other member => below other (List.mem_cons_of_mem _ member)) rest
    rw [later, stored_recordDemand (below entry (List.mem_cons_self ..)) first, totalOf_cons]
    split <;> push_cast <;> ring

/-! ## The buffer -/

/-- What is buffered, or drained and not yet delivered. -/
def DemandSystem.held (system : DemandSystem Memcmp) : List (Entry Memcmp) :=
  system.buffer.toList ++ (system.entries ++ system.requeue)

private theorem requeueEntry_total {buffer : QueryBuffer Memcmp} {entry : Entry Memcmp}
    (below : ∀ counter : Counter,
      totalOf entry.1 counter buffer.toList + entry.2.amount counter ≤ counter.max)
    (key : String) (counter : Counter) :
    totalOf key counter (requeueEntry buffer entry).toList =
      totalOf key counter buffer.toList + if entry.1 = key then entry.2.amount counter else 0 := by
  simp only [totalOf_toList] at below ⊢
  rw [requeueEntry]
  cases present : buffer.lookup entry.1 with
  | none =>
    simp only
    rw [HashMap.lookup_insert]
    rcases eq_or_ne key entry.1 with rfl | different
    · simp [present]
    · rw [if_neg different, if_neg different.symm, Nat.add_zero]
  | some existing =>
    simp only [present, Option.elim_some] at below ⊢
    rw [HashMap.lookup_insert]
    rcases eq_or_ne key entry.1 with rfl | different
    · rw [if_pos rfl, if_pos rfl, present]
      exact amount_merge below counter
    · rw [if_neg different, if_neg different.symm, Nat.add_zero]

private theorem requeueEntry_filed {buffer : QueryBuffer Memcmp} {entry : Entry Memcmp}
    (filedBuffer : ∀ other ∈ buffer.toList, Filed library blake3 other) (filedEntry : Filed library blake3 entry)
    (below : ∀ counter : Counter, totalOf entry.1 counter buffer.toList + entry.2.amount counter ≤ counter.max) :
    ∀ other ∈ (requeueEntry buffer entry).toList, Filed library blake3 other := by
  rintro ⟨key, observation⟩ member
  rw [HashMap.mem_toList, requeueEntry] at member
  simp only [totalOf_toList] at below
  cases present : buffer.lookup entry.1 with
  | none =>
    simp only [present] at member
    rw [HashMap.lookup_insert] at member
    split at member
    · next same =>
      obtain rfl := Option.some.inj member
      exact same ▸ filedEntry
    · exact filedBuffer _ (HashMap.mem_toList.mpr member)
  | some existing =>
    simp only [present, Option.elim_some] at member below
    rw [HashMap.lookup_insert] at member
    split at member
    · next same =>
      obtain rfl := Option.some.inj member
      obtain ⟨identified, counts⟩ := filedBuffer _ (HashMap.mem_toList.mpr present)
      refine ⟨same ▸ identified, ?_⟩
      have merged : (existing.merge entry.2).count = existing.count + entry.2.count := amount_merge below .count
      rw [merged]
      exact le_trans counts (Nat.le_add_right _ _)
    · exact filedBuffer _ (HashMap.mem_toList.mpr member)

/-- Putting entries back keeps every total, as long as the totals fit. -/
theorem requeueEntries_spec {buffer : QueryBuffer Memcmp} {entries : List (Entry Memcmp)}
    (filedBuffer : ∀ other ∈ buffer.toList, Filed library blake3 other)
    (filedEntries : ∀ other ∈ entries, Filed library blake3 other)
    (below : ∀ key (counter : Counter),
      totalOf key counter buffer.toList + totalOf key counter entries ≤ counter.max) :
    (∀ other ∈ (requeueEntries buffer entries).toList, Filed library blake3 other) ∧
    ∀ key counter, totalOf key counter (requeueEntries buffer entries).toList =
      totalOf key counter buffer.toList + totalOf key counter entries := by
  induction entries generalizing buffer with
  | nil => exact ⟨filedBuffer, fun _ _ => rfl⟩
  | cons entry entries ih =>
    have fits : ∀ counter : Counter,
        totalOf entry.1 counter buffer.toList + entry.2.amount counter ≤ counter.max := by
      intro counter
      have bound := below entry.1 counter
      rw [totalOf_cons, if_pos rfl] at bound
      omega
    have total := requeueEntry_total fits
    obtain ⟨filed, totals⟩ := ih
      (requeueEntry_filed filedBuffer (filedEntries entry (List.mem_cons_self ..)) fits)
      (fun other member => filedEntries other (List.mem_cons_of_mem _ member))
      (fun key counter => by
        have bound := below key counter
        rw [totalOf_cons] at bound
        rw [total]
        omega)
    refine ⟨filed, fun key counter => ?_⟩
    have rest := totals key counter
    rw [total] at rest
    rw [requeueEntries, List.foldl_cons, ← requeueEntries, rest, totalOf_cons, Nat.add_assoc]

/-! ## Runs -/

variable {maxBuffered maxBatchSize : ℕ}

/-- A drain lists the buffer in some order, and the accepted requests stay below the limits of the
counters. -/
def Counting (library : MemcmpLibrary Memcmp) (blake3 : List UInt8 → Digest) (_ : List (DemandEvent Memcmp))
    (system : DemandSystem Memcmp) : DemandEvent Memcmp → Prop
  | .bufferQuery program config costUs failed => ∀ key ∈ identify library blake3 program config,
      ∀ counter : Counter, totalOf key counter system.accepted +
        ((TrackObservation.new program config).observe costUs failed).amount counter ≤ counter.max
  | .drain entries => entries.Perm system.buffer.toList
  | _ => True

abbrev DemandRun (library : MemcmpLibrary Memcmp) (blake3 : List UInt8 → Digest) (maxBuffered maxBatchSize : ℕ) :=
  Run DemandSystem.new (DemandSystem.step library blake3 maxBuffered maxBatchSize) (Counting library blake3)

structure Conserving (library : MemcmpLibrary Memcmp) (blake3 : List UInt8 → Digest)
    (system : DemandSystem Memcmp) : Prop where
  filed : ∀ entry ∈ system.held, Filed library blake3 entry
  repeatedCounts : ∀ entry ∈ system.repeated, 1 ≤ entry.2.count
  idle : system.flushing = false → system.entries = [] ∧ system.requeue = []
  conserved : ∀ key counter, totalOf key counter system.held + totalOf key counter system.delivered =
    totalOf key counter system.accepted
  table : ∀ key counter, stored system.store key counter =
    totalOf key counter system.delivered + totalOf key counter system.repeated
  below : ∀ key (counter : Counter), totalOf key counter system.accepted ≤ counter.max

namespace Conserving

variable {system : DemandSystem Memcmp}

theorem new : Conserving library blake3 (DemandSystem.new : DemandSystem Memcmp) where
  filed := fun _ member => absurd member List.not_mem_nil
  repeatedCounts := fun _ member => absurd member List.not_mem_nil
  idle := fun _ => ⟨rfl, rfl⟩
  conserved := fun _ _ => rfl
  table := fun _ _ => rfl
  below := fun _ _ => Nat.zero_le _

private theorem held_le (conserving : Conserving library blake3 system) (key : String) (counter : Counter) :
    totalOf key counter system.held ≤ counter.max := by
  have conserved := conserving.conserved key counter
  have below := conserving.below key counter
  omega

private theorem entry_le (conserving : Conserving library blake3 system) {entry : Entry Memcmp}
    (member : entry ∈ system.held) (counter : Counter) : entry.2.amount counter ≤ counter.max :=
  le_trans (le_totalOf member) (conserving.held_le entry.1 counter)

theorem bufferQuery (conserving : Conserving library blake3 system) {program : Pubkey}
    {config : Option (RpcProgramAccountsConfig Memcmp)} {costUs : ℕ} {failed : Bool}
    (fits : ∀ key ∈ identify library blake3 program config, ∀ counter : Counter,
      totalOf key counter system.accepted +
        ((TrackObservation.new program config).observe costUs failed).amount counter ≤ counter.max) :
    Conserving library blake3 (system.bufferQuery library blake3 maxBuffered program config costUs failed) := by
  rw [DemandSystem.bufferQuery]
  split
  · exact conserving
  · next key identified =>
    split
    · exact conserving
    · have room := fits key identified
      let entry := (system.buffer.lookup key).getD (.new program config)
      have previous : ∀ counter, entry.amount counter = totalOf key counter system.buffer.toList := by
        intro counter
        rw [totalOf_toList]
        cases present : system.buffer.lookup key with
        | none => simp only [entry, present, Option.getD_none]; cases counter <;> rfl
        | some existing => simp only [entry, present, Option.getD_some, Option.elim_some]
      have added := amount_observe entry program config costUs failed (fun counter => by
          have conserved := conserving.conserved key counter
          have limit := room counter
          rw [DemandSystem.held, totalOf_append] at conserved
          rw [previous]
          omega)
      have total : ∀ other counter,
          totalOf other counter (HashMap.toList (system.buffer.insert key (entry.observe costUs failed))) =
            totalOf other counter system.buffer.toList +
              totalOf other counter [(key, (TrackObservation.new program config).observe costUs failed)] := by
        intro other counter
        rw [totalOf_cons, totalOf_nil, Nat.add_zero, totalOf_toList, HashMap.lookup_insert]
        rcases eq_or_ne other key with rfl | different
        · rw [if_pos rfl, if_pos rfl, Option.elim_some, added, previous]
        · rw [if_neg different, if_neg different.symm, Nat.add_zero, totalOf_toList]
      refine ⟨?_, conserving.repeatedCounts, conserving.idle, ?_, conserving.table, ?_⟩
      · rintro ⟨other, observation⟩ member
        rcases List.mem_append.mp member with buffered | underWay
        · rw [HashMap.mem_toList, HashMap.lookup_insert] at buffered
          split at buffered
          · next same =>
            obtain rfl := Option.some.inj buffered
            refine ⟨?_, ?_⟩
            · cases present : system.buffer.lookup key with
              | none =>
                rw [same]
                simpa [entry, present, TrackObservation.observe, TrackObservation.new] using identified
              | some existing =>
                have filed := conserving.filed (key, existing)
                  (List.mem_append_left _ (HashMap.mem_toList.mpr present))
                rw [same]
                simpa [entry, present, TrackObservation.observe] using filed.1
            · have counted : (entry.observe costUs failed).count = entry.count + 1 := added .count
              rw [counted]
              exact Nat.le_add_left _ _
          · exact conserving.filed _ (List.mem_append_left _ (HashMap.mem_toList.mpr buffered))
        · exact conserving.filed _ (List.mem_append_right _ underWay)
      · intro other counter
        have conserved := conserving.conserved other counter
        simp only [DemandSystem.held, totalOf_append] at conserved ⊢
        rw [total]
        omega
      · intro other counter
        rw [totalOf_append, totalOf_cons, totalOf_nil, Nat.add_zero]
        split
        · next same => exact same ▸ room counter
        · exact conserving.below other counter

theorem drain (conserving : Conserving library blake3 system) {entries : List (Entry Memcmp)}
    (idle : system.flushing = false) (listed : entries.Perm system.buffer.toList) :
    Conserving library blake3 { system with buffer := ∅, flushing := true, entries, requeue := [] } := by
  obtain ⟨noEntries, noRequeue⟩ := conserving.idle idle
  have held : system.held = system.buffer.toList := by
    rw [DemandSystem.held, noEntries, noRequeue, List.append_nil, List.append_nil]
  refine ⟨?_, conserving.repeatedCounts, fun impossible => absurd impossible (by simp), ?_, conserving.table,
    conserving.below⟩
  · intro entry member
    have inEntries : entry ∈ entries := by simpa [DemandSystem.held, HashMap.toList] using member
    exact conserving.filed entry (held ▸ listed.mem_iff.mp inEntries)
  · intro key counter
    have conserved := conserving.conserved key counter
    rw [held, ← totalOf_perm listed] at conserved
    rw [DemandSystem.held, List.append_nil]
    exact conserved

theorem chunk_sublist (system : DemandSystem Memcmp) {entry : Entry Memcmp}
    (member : entry ∈ system.chunk maxBatchSize) : entry ∈ system.held :=
  List.mem_append_right _ (List.mem_append_left _ (List.mem_of_mem_take member))

private theorem totalOf_entries (system : DemandSystem Memcmp) (maxBatchSize : ℕ) (key : String) (counter : Counter) :
    totalOf key counter system.entries = totalOf key counter (system.chunk maxBatchSize) +
      totalOf key counter (system.entries.drop (max maxBatchSize 1)) := by
  rw [DemandSystem.chunk, ← totalOf_append, List.take_append_drop]

theorem sendSucceeds (conserving : Conserving library blake3 system) (flushing : system.flushing = true)
    {store : Store}
    (applied : applyBatch library blake3 system.store ((system.chunk maxBatchSize).map Prod.snd) = some store) :
    Conserving library blake3 { system with
      store
      entries := system.entries.drop (max maxBatchSize 1)
      delivered := system.delivered ++ system.chunk maxBatchSize } := by
  refine ⟨?_, conserving.repeatedCounts, fun idle => absurd (flushing.symm.trans idle) (by simp), ?_, ?_, conserving.below⟩
  · intro entry member
    apply conserving.filed
    rcases List.mem_append.mp member with buffered | underWay
    · exact List.mem_append_left _ buffered
    · rcases List.mem_append.mp underWay with left | failed
      · exact List.mem_append_right _ (List.mem_append_left _ (List.mem_of_mem_drop left))
      · exact List.mem_append_right _ (List.mem_append_right _ failed)
  · intro key counter
    have conserved := conserving.conserved key counter
    simp only [DemandSystem.held, totalOf_append] at conserved ⊢
    rw [totalOf_entries system maxBatchSize] at conserved
    omega
  · intro key counter
    have table := conserving.table key counter
    have moved := stored_applyBatch (fun entry member => conserving.filed entry (chunk_sublist system member))
      (fun entry member => conserving.entry_le (chunk_sublist system member)) applied key counter
    rw [moved, table, totalOf_append]
    push_cast
    ring

theorem sendFails (conserving : Conserving library blake3 system) (flushing : system.flushing = true)
    {store : Store} {committed : ℕ}
    (applied : applyBatch library blake3 system.store (((system.chunk maxBatchSize).take committed).map Prod.snd) =
      some store) :
    Conserving library blake3 { system with
      store
      entries := system.entries.drop (max maxBatchSize 1)
      requeue := system.requeue ++ system.chunk maxBatchSize
      repeated := system.repeated ++ (system.chunk maxBatchSize).take committed } := by
  have ofChunk : ∀ entry ∈ (system.chunk maxBatchSize).take committed, entry ∈ system.held :=
    fun entry member => chunk_sublist system (List.mem_of_mem_take member)
  refine ⟨?_, ?_, fun idle => absurd (flushing.symm.trans idle) (by simp), ?_, ?_, conserving.below⟩
  · intro entry member
    apply conserving.filed
    rcases List.mem_append.mp member with buffered | underWay
    · exact List.mem_append_left _ buffered
    · rcases List.mem_append.mp underWay with left | failed
      · exact List.mem_append_right _ (List.mem_append_left _ (List.mem_of_mem_drop left))
      · rcases List.mem_append.mp failed with before | now
        · exact List.mem_append_right _ (List.mem_append_right _ before)
        · exact chunk_sublist system now
  · intro entry member
    rcases List.mem_append.mp member with before | now
    · exact conserving.repeatedCounts entry before
    · exact (conserving.filed entry (ofChunk entry now)).2
  · intro key counter
    have conserved := conserving.conserved key counter
    simp only [DemandSystem.held, totalOf_append] at conserved ⊢
    rw [totalOf_entries system maxBatchSize] at conserved
    omega
  · intro key counter
    have table := conserving.table key counter
    have moved := stored_applyBatch (fun entry member => conserving.filed entry (ofChunk entry member))
      (fun entry member => conserving.entry_le (ofChunk entry member)) applied key counter
    rw [moved, table, totalOf_append]
    push_cast
    ring

theorem flushEnds (conserving : Conserving library blake3 system) (sent : system.entries = []) :
    Conserving library blake3 { system with
      buffer := requeueEntries system.buffer system.requeue, flushing := false, requeue := [] } := by
  have held : system.held = system.buffer.toList ++ system.requeue := by
    rw [DemandSystem.held, sent, List.nil_append]
  obtain ⟨filed, totals⟩ := requeueEntries_spec
    (fun entry member => conserving.filed entry (held ▸ List.mem_append_left _ member))
    (fun entry member => conserving.filed entry (held ▸ List.mem_append_right _ member))
    (fun key counter => by
      rw [← totalOf_append, ← held]
      exact conserving.held_le key counter)
  refine ⟨?_, conserving.repeatedCounts, fun _ => ⟨sent, rfl⟩, ?_, conserving.table, conserving.below⟩
  · intro entry member
    rw [DemandSystem.held, sent, List.append_nil, List.append_nil] at member
    exact filed entry member
  · intro key counter
    have conserved := conserving.conserved key counter
    rw [held, totalOf_append] at conserved
    rw [DemandSystem.held, sent, List.append_nil, List.append_nil]
    simp only
    rw [totals]
    exact conserved

theorem step (conserving : Conserving library blake3 system) {events : List (DemandEvent Memcmp)}
    {event : DemandEvent Memcmp} {next : DemandSystem Memcmp} (guard : Counting library blake3 events system event)
    (moves : system.step library blake3 maxBuffered maxBatchSize event = some next) :
    Conserving library blake3 next := by
  cases event with
  | bufferQuery program config costUs failed =>
    obtain rfl := Option.some.inj moves
    exact conserving.bufferQuery guard
  | drain entries =>
    rw [DemandSystem.step] at moves
    split at moves
    · cases moves
    · next idle =>
      obtain rfl := Option.some.inj moves
      exact conserving.drain (by simpa using idle) guard
  | sendSucceeds =>
    rw [DemandSystem.step] at moves
    split at moves
    · next sending =>
      obtain ⟨store, applied, same⟩ := Option.bind_eq_some_iff.mp moves
      obtain rfl := Option.some.inj same
      exact conserving.sendSucceeds sending.1 applied
    · cases moves
  | sendFails committed =>
    rw [DemandSystem.step] at moves
    split at moves
    · next sending =>
      obtain ⟨store, applied, same⟩ := Option.bind_eq_some_iff.mp moves
      obtain rfl := Option.some.inj same
      exact conserving.sendFails sending.1 applied
    · cases moves
  | flushEnds =>
    rw [DemandSystem.step] at moves
    split at moves
    · next sent =>
      obtain rfl := Option.some.inj moves
      exact conserving.flushEnds sent.2
    · cases moves

end Conserving

theorem conserving_run {events : List (DemandEvent Memcmp)} {system : DemandSystem Memcmp}
    (run : DemandRun library blake3 maxBuffered maxBatchSize events system) :
    Conserving library blake3 system :=
  run.stateInvariant Conserving.new fun _ _ _ _ conserving guard moves => conserving.step guard moves

/-- What a failed send had committed is kept as repeated exactly when it is something. -/
theorem repeated_eq_nil_iff {events : List (DemandEvent Memcmp)} {system : DemandSystem Memcmp}
    (run : DemandRun library blake3 maxBuffered maxBatchSize events system) :
    system.repeated = [] ↔ ∀ committed, .sendFails committed ∈ events → committed = 0 := by
  induction run with
  | start => simp [DemandSystem.new]
  | @step events system next event before guard moves ih =>
    have later : (∀ committed, .sendFails committed ∈ events ++ [event] → committed = 0) ↔
        system.repeated = [] ∧ ∀ committed, event = .sendFails committed → committed = 0 := by
      rw [ih]
      simp only [List.mem_append, List.mem_singleton]
      constructor
      · exact fun all => ⟨fun committed member => all committed (Or.inl member),
          fun committed same => all committed (Or.inr same.symm)⟩
      · rintro ⟨earlier, last⟩ committed (member | same)
        · exact earlier committed member
        · exact last committed same.symm
    rw [later]
    cases event with
    | bufferQuery program config costUs failed =>
      obtain rfl := Option.some.inj moves
      have same : (system.bufferQuery library blake3 maxBuffered program config costUs failed).repeated =
          system.repeated := by
        rw [DemandSystem.bufferQuery]
        split
        · rfl
        · split <;> rfl
      simp [same]
    | drain entries =>
      rw [DemandSystem.step] at moves
      split at moves
      · cases moves
      · obtain rfl := Option.some.inj moves
        simp
    | sendSucceeds =>
      rw [DemandSystem.step] at moves
      split at moves
      · obtain ⟨store, -, same⟩ := Option.bind_eq_some_iff.mp moves
        obtain rfl := Option.some.inj same
        simp
      · cases moves
    | sendFails committed =>
      rw [DemandSystem.step] at moves
      split at moves
      · next sending =>
        obtain ⟨store, -, same⟩ := Option.bind_eq_some_iff.mp moves
        obtain rfl := Option.some.inj same
        have size : max maxBatchSize 1 ≠ 0 := by omega
        simp [DemandSystem.chunk, sending.2, size]
      · cases moves
    | flushEnds =>
      rw [DemandSystem.step] at moves
      split at moves
      · obtain rfl := Option.some.inj moves
        simp
      · cases moves

/-- Once everything in the buffer has been flushed successfully, the counts of every pattern are those of
the accepted requests if and only if no failed send had committed an observation. -/
theorem demand_is_counted_once_iff {events : List (DemandEvent Memcmp)} {system : DemandSystem Memcmp}
    (run : DemandRun library blake3 maxBuffered maxBatchSize events system) (flushed : system.held = []) :
    (∀ key counter, stored system.store key counter = totalOf key counter system.accepted) ↔
      ∀ committed, .sendFails committed ∈ events → committed = 0 := by
  have conserving := conserving_run run
  have delivered : ∀ key counter, totalOf key counter system.delivered = totalOf key counter system.accepted := by
    intro key counter
    have conserved := conserving.conserved key counter
    rw [flushed, totalOf_nil, Nat.zero_add] at conserved
    exact conserved
  rw [← repeated_eq_nil_iff run]
  constructor
  · intro exact_counts
    by_contra some_repeated
    obtain ⟨entry, member⟩ := List.exists_mem_of_ne_nil _ some_repeated
    have table := conserving.table entry.1 .count
    rw [exact_counts, delivered] at table
    have counts : entry.2.amount .count ≤ totalOf entry.1 .count system.repeated := le_totalOf member
    have positive : 1 ≤ entry.2.amount .count := conserving.repeatedCounts entry member
    omega
  · intro nothing key counter
    rw [conserving.table, nothing, totalOf_nil, delivered, Nat.cast_zero, add_zero]

end System

/-! ## One request -/

/-- A library without byte filters, and the digest of program one with a data size of 165. -/
def noMemcmp : MemcmpLibrary Empty := ⟨Empty.elim, Empty.elim⟩

def sizedDigest : Digest :=
  ⟨[0x13, 0x84, 0xa9, 0x09, 0x47, 0xf3, 0x33, 0xff, 0x21, 0x4f, 0x0c, 0xef, 0x6a, 0x66, 0xd3, 0x5b,
    0x54, 0x83, 0x33, 0xb6, 0xfe, 0xd0, 0x6b, 0xa3, 0x9c, 0x82, 0x6b, 0x23, 0x1f, 0xf6, 0xe2, 0xbe], rfl⟩

def sizedConfig : Option (RpcProgramAccountsConfig Empty) := some ⟨some [.dataSize 165]⟩

private theorem identify_sized :
    identify noMemcmp (fun _ => sizedDigest) 1 sizedConfig = some "1384a90947f333ff" := by
  decide +kernel

/-- The request, as the buffer counts it. -/
def sizedEntry : Entry Empty := ("1384a90947f333ff", ⟨1, sizedConfig, 1, 250, 0⟩)

abbrev SizedRun := DemandRun noMemcmp (fun _ => sizedDigest) 10 5

/-- The system with the request held somewhere, and what became of its sends. -/
def sizedSystem (buffer entries requeue : List (Entry Empty)) (flushing : Bool) (store : Store)
    (delivered repeated : List (Entry Empty)) : DemandSystem Empty :=
  { buffer := requeueEntries ∅ buffer, flushing, entries, requeue, store, accepted := [sizedEntry], delivered,
    repeated }

private theorem sized_buffered : SizedRun [.bufferQuery 1 sizedConfig 250 false]
    (sizedSystem [sizedEntry] [] [] false ∅ [] []) := by
  have first : SizedRun ([] ++ [.bufferQuery 1 sizedConfig 250 false])
      (sizedSystem [sizedEntry] [] [] false ∅ [] []) := by
    refine Run.step .start ?_ ?_
    · intro key identified counter
      rw [show totalOf key counter DemandSystem.new.accepted = 0 from rfl, Nat.zero_add]
      cases counter <;> decide
    · have observed : (TrackObservation.new 1 sizedConfig).observe 250 false = sizedEntry.2 := by
        simp [TrackObservation.new, TrackObservation.observe, saturatingAdd, u32Max, u64Max, sizedEntry]
      simp only [DemandSystem.step, DemandSystem.bufferQuery, identify_sized, DemandSystem.new,
        HashMap.lookup_empty, Option.getD_none, observed]
      rfl
  exact first

theorem sized_drained {events : List (DemandEvent Empty)} {store : Store} {repeated : List (Entry Empty)}
    (run : SizedRun events (sizedSystem [sizedEntry] [] [] false store [] repeated)) :
    SizedRun (events ++ [.drain [sizedEntry]]) (sizedSystem [] [sizedEntry] [] true store [] repeated) :=
  Run.step run (List.Perm.refl _) rfl

private theorem sized_applied (store : Store) :
    applyBatch noMemcmp (fun _ => sizedDigest) store [sizedEntry.2] =
      recordDemand store sizedEntry.1 sizedEntry.2 := by
  have applied : applyObservation noMemcmp (fun _ => sizedDigest) store sizedEntry.2 =
      recordDemand store sizedEntry.1 sizedEntry.2 := by
    simp only [applyObservation, sizedEntry, identify_sized]
  rw [applyBatch, List.foldlM_cons, applied]
  exact bind_pure _

section Sends

variable {events : List (DemandEvent Empty)} {store next : Store} {delivered repeated : List (Entry Empty)}

private theorem sized_succeeds (run : SizedRun events (sizedSystem [] [sizedEntry] [] true store [] repeated))
    (recorded : recordDemand store sizedEntry.1 sizedEntry.2 = some next) :
    SizedRun (events ++ [.sendSucceeds]) (sizedSystem [] [] [] true next [sizedEntry] repeated) := by
  refine Run.step run trivial ?_
  have applied := (sized_applied store).trans recorded
  change (applyBatch noMemcmp (fun _ => sizedDigest) store [sizedEntry.2]).bind _ = _
  rw [applied]
  rfl

private theorem sized_fails (run : SizedRun events (sizedSystem [] [sizedEntry] [] true store [] repeated))
    (recorded : recordDemand store sizedEntry.1 sizedEntry.2 = some next) :
    SizedRun (events ++ [.sendFails 1]) (sizedSystem [] [] [sizedEntry] true next [] (repeated ++ [sizedEntry])) := by
  refine Run.step run trivial ?_
  have applied := (sized_applied store).trans recorded
  change (applyBatch noMemcmp (fun _ => sizedDigest) store [sizedEntry.2]).bind _ = _
  rw [applied]
  rfl

/-- The database refuses the batch before it commits anything. -/
theorem sized_refused (run : SizedRun events (sizedSystem [] [sizedEntry] [] true store [] [])) :
    SizedRun (events ++ [.sendFails 0]) (sizedSystem [] [] [sizedEntry] true store [] []) :=
  Run.step run trivial rfl

theorem sized_ends {requeue : List (Entry Empty)}
    (run : SizedRun events (sizedSystem [] [] requeue true store delivered repeated)) :
    SizedRun (events ++ [.flushEnds]) (sizedSystem requeue [] [] false store delivered repeated) :=
  Run.step run trivial rfl

end Sends

/-- The table after the request was committed once. -/
def countedOnce : Store := (∅ : Store).insert sizedEntry.1 ⟨1, 250, 0⟩

private theorem recorded_once : recordDemand ∅ sizedEntry.1 sizedEntry.2 = some countedOnce := by
  rw [recordDemand, HashMap.lookup_empty]
  rfl

/-- One request, refused with its first batch, put back and delivered with the next, is counted once. -/
theorem one_request_is_counted_once :
    stored countedOnce sizedEntry.1 .count = totalOf sizedEntry.1 .count [sizedEntry] ∧
    stored countedOnce sizedEntry.1 .cost = totalOf sizedEntry.1 .cost [sizedEntry] := by
  have run := sized_ends (sized_succeeds (sized_drained (sized_ends (sized_refused (sized_drained sized_buffered))))
    recorded_once)
  have counts := (demand_is_counted_once_iff run rfl).mpr (fun committed member => by simpa using member)
  exact ⟨counts sizedEntry.1 .count, counts sizedEntry.1 .cost⟩

/-- The answer to a batch is lost after the tracker committed it: the request is sent and counted again. -/
theorem lost_answer_is_counted_twice :
    ¬ ∀ (library : MemcmpLibrary Empty) (blake3 : List UInt8 → Digest) (maxBuffered maxBatchSize : ℕ)
      (events : List (DemandEvent Empty)) (system : DemandSystem Empty),
      DemandRun library blake3 maxBuffered maxBatchSize events system → system.held = [] →
        ∀ key counter, stored system.store key counter = totalOf key counter system.accepted := by
  intro once
  have recorded : recordDemand countedOnce sizedEntry.1 sizedEntry.2 =
      some (countedOnce.insert sizedEntry.1 ⟨2, 500, 0⟩) := by
    rw [recordDemand, countedOnce, HashMap.lookup_insert, if_pos rfl]
    rfl
  have run := sized_ends (sized_succeeds (sized_drained
    (sized_ends (sized_fails (sized_drained sized_buffered) recorded_once))) recorded)
  have counts := once _ _ _ _ _ _ run rfl sizedEntry.1 .count
  change stored (countedOnce.insert sizedEntry.1 ⟨2, 500, 0⟩) sizedEntry.1 .count = _ at counts
  rw [stored_insert, if_pos rfl] at counts
  revert counts
  decide +kernel

end Cloudbreak.Model.QueryTracker
