import Cloudbreak.ToMathlib.Run
import Cloudbreak.Proofs.Cleanup.Window

/-! # The queue conserves work

Every queued entry waits in a bucket, flies in the window, or ran in a window taken after it. Buckets and
the window keep a stamp no younger than the frontier the entry was queued at, which is what bounds the lag
from below.
-/

namespace Cloudbreak.Model.Cleanup

open Cloudbreak.ToMathlib

namespace Drainer

variable {drainer : Drainer}

/-- An entry of the window in flight, under a stamp no younger than its own frontier. -/
def Flies (drainer : Drainer) (position : ℕ) (entry : Entry) : Prop :=
  ∃ taken, drainer.window = some taken ∧ position < drainer.takenAfter ∧
    ∃ held, (entry.key, held) ∈ taken.items ∧ entry.cutoff ≤ held ∧ taken.oldestStamp ≤ entry.highWater

structure Conserving (drainer : Drainer) : Prop where
  covered : ∀ position entry, drainer.enqueued[position]? = some entry →
    drainer.pending.Waits entry.key entry.cutoff entry.highWater ∨ drainer.Flies position entry ∨
      drainer.Executed position entry
  stamped : drainer.pending.inFlightStamp =
    drainer.window.bind fun taken => if taken.isEmpty then none else some taken.oldestStamp
  takenBefore : drainer.takenAfter ≤ drainer.enqueued.length
  queuedCutoff : ∀ key cutoff, drainer.pending.Holds key cutoff →
    ∃ entry ∈ drainer.enqueued, entry.key = key ∧ entry.cutoff = cutoff
  flyingCutoff : ∀ taken, drainer.window = some taken → ∀ item ∈ taken.items,
    ∃ entry ∈ drainer.enqueued, entry.key = item.1 ∧ entry.cutoff = item.2
  executedCutoff : ∀ execution ∈ drainer.executed,
    ∃ entry ∈ drainer.enqueued, entry.key = execution.key ∧ entry.cutoff = execution.cutoff

/-- Queueing a slot merges its items at the new frontier. -/
theorem pending_enqueue (pending : Pending) (slot : ℕ) (items : List (CleanupKey × ℕ)) :
    (items = [] ∧ (pending.enqueue slot items).slots = pending.slots) ∨
      (pending.enqueue slot items).slots = (pending.mergeInto slot (max pending.highWater slot) items).slots := by
  cases items with
  | nil => exact Or.inl ⟨rfl, rfl⟩
  | cons item rest => exact Or.inr rfl

private theorem highWater_enqueue (pending : Pending) (slot : ℕ) (items : List (CleanupKey × ℕ)) :
    (pending.enqueue slot items).highWater = max pending.highWater slot := by
  cases items <;> rfl

private theorem inFlightStamp_enqueue (pending : Pending) (slot : ℕ) (items : List (CleanupKey × ℕ)) :
    (pending.enqueue slot items).inFlightStamp = pending.inFlightStamp := by
  cases items <;> rfl

theorem Conserving.start (intervalSlots : ℕ) : Conserving (start intervalSlots) where
  covered := by simp [Drainer.start]
  stamped := rfl
  takenBefore := le_rfl
  queuedCutoff := by
    rintro key cutoff ⟨slot, bucket, isBucket, _⟩
    rw [Drainer.start, Pending.new, HashMap.lookup_empty] at isBucket
    contradiction
  flyingCutoff := by simp [Drainer.start]
  executedCutoff := by simp [Drainer.start]

theorem Conserving.enqueue (conserving : Conserving drainer) (slot : ℕ) (items : List (CleanupKey × ℕ)) :
    Conserving (drainer.enqueue slot items) := by
  have waits : ∀ key cutoff frontier, drainer.pending.Waits key cutoff frontier →
      (drainer.pending.enqueue slot items).Waits key cutoff frontier := by
    intro key cutoff frontier before
    rcases pending_enqueue drainer.pending slot items with ⟨_, same⟩ | merged
    · rw [Pending.Waits, same]
      exact before
    · rw [Pending.Waits, merged]
      exact before.mergeInto slot _ items
  have older : ∀ entry ∈ drainer.enqueued, entry ∈ (drainer.enqueue slot items).enqueued :=
    fun entry member => List.mem_append_left _ member
  constructor
  case covered =>
    intro position entry isEntry
    rw [Drainer.enqueue, List.getElem?_append] at isEntry
    split at isEntry
    · rcases conserving.covered position entry isEntry with waiting | flying | done
      · exact Or.inl (waits _ _ _ waiting)
      · exact Or.inr (Or.inl flying)
      · exact Or.inr (Or.inr done)
    · left
      rw [List.getElem?_map, Option.map_eq_some_iff] at isEntry
      obtain ⟨⟨key, cutoff⟩, isItem, rfl⟩ := isEntry
      have member := List.mem_of_getElem? isItem
      rcases pending_enqueue drainer.pending slot items with ⟨rfl, _⟩ | merged
      · simp at member
      · rw [highWater_enqueue]
        change (drainer.pending.enqueue slot items).Waits _ _ _
        rw [Pending.Waits, merged]
        exact Pending.waits_mergeInto drainer.pending slot _ member
  case stamped => exact (inFlightStamp_enqueue _ _ _).trans conserving.stamped
  case takenBefore => exact conserving.takenBefore.trans (by simp [Drainer.enqueue])
  case queuedCutoff =>
    intro key cutoff holds
    have sources : drainer.pending.Holds key cutoff ∨ (key, cutoff) ∈ items := by
      change (drainer.pending.enqueue slot items).Holds key cutoff at holds
      rcases pending_enqueue drainer.pending slot items with ⟨_, same⟩ | merged
      · rw [Pending.Holds, same] at holds
        exact Or.inl holds
      · rw [Pending.Holds, merged] at holds
        exact Pending.Holds.of_mergeInto holds
    rcases sources with before | member
    · obtain ⟨entry, isEntry, same⟩ := conserving.queuedCutoff key cutoff before
      exact ⟨entry, older entry isEntry, same⟩
    · exact ⟨_, List.mem_append_right _ (List.mem_map_of_mem member), rfl, rfl⟩
  case flyingCutoff =>
    intro taken inFlight item member
    obtain ⟨entry, isEntry, same⟩ := conserving.flyingCutoff taken inFlight item member
    exact ⟨entry, older entry isEntry, same⟩
  case executedCutoff =>
    intro execution member
    obtain ⟨entry, isEntry, same⟩ := conserving.executedCutoff execution member
    exact ⟨entry, older entry isEntry, same⟩

theorem Conserving.take (conserving : Conserving drainer) (idle : drainer.window = none) :
    Conserving drainer.take where
  covered := by
    intro position entry isEntry
    rcases conserving.covered position entry isEntry with waiting | ⟨taken, flying, _⟩ | done
    · have noted : drainer.pending.noteDrain.Waits entry.key entry.cutoff entry.highWater := waiting
      rcases noted.takeWindow with stays | carried
      · exact Or.inl stays
      · have early : position < drainer.enqueued.length := (List.getElem?_eq_some_iff.mp isEntry).1
        exact Or.inr (Or.inl ⟨_, rfl, early, carried⟩)
    · rw [idle] at flying
      contradiction
    · exact Or.inr (Or.inr done)
  stamped := rfl
  takenBefore := le_rfl
  queuedCutoff := by
    intro key cutoff holds
    have left_ : drainer.pending.noteDrain.takeWindow.2.Holds key cutoff := holds
    exact conserving.queuedCutoff key cutoff left_.of_takeWindow
  flyingCutoff := by
    rintro taken inFlight ⟨key, cutoff⟩ member
    cases inFlight
    have held : drainer.pending.noteDrain.Holds key cutoff := Pending.holds_of_mem_takeWindow member
    exact conserving.queuedCutoff key cutoff held
  executedCutoff := conserving.executedCutoff

theorem Conserving.succeed (conserving : Conserving drainer) {taken : Taken}
    (inFlight : drainer.window = some taken) : Conserving (drainer.succeed taken) where
  covered := by
    intro position entry isEntry
    rcases conserving.covered position entry isEntry with waiting | flying | ⟨execution, member, rest⟩
    · exact Or.inl waiting
    · obtain ⟨window, isWindow, early, held, member, enough, _⟩ := flying
      rw [inFlight, Option.some.injEq] at isWindow
      subst isWindow
      refine Or.inr (Or.inr ⟨⟨entry.key, held, drainer.takenAfter⟩, ?_, rfl, enough, early⟩)
      exact List.mem_append_right _ (List.mem_map_of_mem member)
    · exact Or.inr (Or.inr ⟨execution, List.mem_append_left _ member, rest⟩)
  stamped := rfl
  takenBefore := conserving.takenBefore
  queuedCutoff := conserving.queuedCutoff
  flyingCutoff := by simp [Drainer.succeed]
  executedCutoff := by
    intro execution member
    rcases List.mem_append.mp member with before | ran
    · exact conserving.executedCutoff execution before
    · obtain ⟨item, isItem, rfl⟩ := List.mem_map.mp ran
      exact conserving.flyingCutoff taken inFlight item isItem

theorem slots_reinsert (pending : Pending) (taken : Taken) :
    (taken.items = [] ∧ (pending.reinsert taken).slots = pending.slots) ∨
      (pending.reinsert taken).slots =
        (pending.mergeInto taken.oldestSlot taken.oldestStamp taken.items).slots := by
  cases empty : taken.isEmpty with
  | true =>
    left
    obtain ⟨noRouted, noUnrouted⟩ := (Bool.and_eq_true _ _).mp empty
    rw [List.isEmpty_iff] at noRouted noUnrouted
    refine ⟨by rw [Taken.items, noRouted, noUnrouted, List.append_nil], ?_⟩
    rw [Pending.reinsert, if_pos empty]
    rfl
  | false =>
    right
    rw [Pending.reinsert, if_neg (by simp [empty])]
    rfl

theorem Conserving.fail (conserving : Conserving drainer) {taken : Taken}
    (inFlight : drainer.window = some taken) : Conserving (drainer.fail taken) where
  covered := by
    intro position entry isEntry
    rcases conserving.covered position entry isEntry with waiting | flying | done
    · left
      change (drainer.pending.reinsert taken).Waits _ _ _
      rcases slots_reinsert drainer.pending taken with ⟨_, same⟩ | merged
      · rw [Pending.Waits, same]
        exact waiting
      · rw [Pending.Waits, merged]
        exact waiting.mergeInto _ _ _
    · left
      obtain ⟨window, isWindow, _, held, member, enough, old⟩ := flying
      rw [inFlight, Option.some.injEq] at isWindow
      subst isWindow
      have back : (drainer.pending.reinsert taken).Waits entry.key held taken.oldestStamp := by
        rcases slots_reinsert drainer.pending taken with ⟨none_, _⟩ | merged
        · rw [none_] at member
          simp at member
        · rw [Pending.Waits, merged]
          exact Pending.waits_mergeInto drainer.pending _ _ member
      obtain ⟨slot, bucket, kept, isBucket, isKept, more, older⟩ := back
      exact ⟨slot, bucket, kept, isBucket, isKept, enough.trans more, older.trans old⟩
    · exact Or.inr (Or.inr done)
  stamped := rfl
  takenBefore := conserving.takenBefore
  queuedCutoff := by
    intro key cutoff holds
    change (drainer.pending.reinsert taken).Holds key cutoff at holds
    have sources : drainer.pending.Holds key cutoff ∨ (key, cutoff) ∈ taken.items := by
      rcases slots_reinsert drainer.pending taken with ⟨_, same⟩ | merged
      · rw [Pending.Holds, same] at holds
        exact Or.inl holds
      · rw [Pending.Holds, merged] at holds
        exact Pending.Holds.of_mergeInto holds
    rcases sources with before | member
    · exact conserving.queuedCutoff key cutoff before
    · exact conserving.flyingCutoff taken inFlight (key, cutoff) member
  flyingCutoff := by simp [Drainer.fail]
  executedCutoff := conserving.executedCutoff

/-- The queue conserves work in every reached state. -/
theorem conserving_run {intervalSlots : ℕ} {events : List Event}
    (run : Run (start intervalSlots) step (fun _ _ _ => True) events drainer) : Conserving drainer := by
  refine Run.stateInvariant (Conserving.start intervalSlots) ?_ run
  intro events state event next conserving _ moves
  cases event with
  | enqueue slot items =>
    cases moves
    exact conserving.enqueue slot items
  | take =>
    rw [step] at moves
    split at moves
    · next idle =>
      cases moves
      exact conserving.take (Option.isNone_iff_eq_none.mp idle)
    · contradiction
  | succeed =>
    obtain ⟨taken, inFlight, rfl⟩ := Option.map_eq_some_iff.mp moves
    exact conserving.succeed inFlight
  | fail =>
    obtain ⟨taken, inFlight, rfl⟩ := Option.map_eq_some_iff.mp moves
    exact conserving.fail inFlight

/-- The lag counts from every stamp in the queue or in flight. -/
theorem le_lagSlots {pending : Pending} {frontier : ℕ}
    (old : (∃ slot bucket, pending.slots.lookup slot = some bucket ∧ bucket.stamp ≤ frontier) ∨
      ∃ stamp, pending.inFlightStamp = some stamp ∧ stamp ≤ frontier) :
    pending.highWater - frontier ≤ pending.lagSlots := by
  have oldest : ∃ stamp, stamp ≤ frontier ∧ pending.lagSlots = pending.highWater - stamp := by
    rcases old with ⟨slot, bucket, isBucket, bound⟩ | ⟨stamp, isStamp, bound⟩
    · have member : bucket.stamp ∈ pending.slots.values.map Bucket.stamp :=
        List.mem_map_of_mem (HashMap.mem_values.mpr ⟨slot, isBucket⟩)
      obtain ⟨least, isLeast⟩ : ∃ least, (pending.slots.values.map Bucket.stamp).min? = some least := by
        cases none_ : (pending.slots.values.map Bucket.stamp).min? with
        | none =>
          rw [List.min?_eq_none_iff.mp none_] at member
          simp at member
        | some least => exact ⟨least, rfl⟩
      have below := (List.min?_eq_some_iff.mp isLeast).2 _ member
      cases flying : pending.inFlightStamp with
      | none => exact ⟨least, by omega, by simp [Pending.lagSlots, isLeast, flying]⟩
      | some stamp => exact ⟨min least stamp, by omega, by simp [Pending.lagSlots, isLeast, flying]⟩
    · cases queued : (pending.slots.values.map Bucket.stamp).min? with
      | none => exact ⟨stamp, bound, by simp [Pending.lagSlots, queued, isStamp]⟩
      | some least => exact ⟨min least stamp, by omega, by simp [Pending.lagSlots, queued, isStamp]⟩
  obtain ⟨stamp, bound, isLag⟩ := oldest
  omega

/-- A window that carries a key is not empty. -/
theorem isEmpty_eq_false {taken : Taken} {item : CleanupKey × ℕ} (member : item ∈ taken.items) :
    taken.isEmpty = false := by
  rcases List.mem_append.mp member with routed | unrouted
  · rw [Taken.isEmpty, List.isEmpty_eq_false_iff.mpr (List.ne_nil_of_mem routed), Bool.false_and]
  · rw [Taken.isEmpty, List.isEmpty_eq_false_iff.mpr (List.ne_nil_of_mem unrouted), Bool.and_false]

private theorem Conserving.outstanding (conserving : Conserving drainer) {position : ℕ} {entry : Entry}
    (isEntry : drainer.enqueued[position]? = some entry) (notExecuted : ¬drainer.Executed position entry) :
    (∃ slot bucket, drainer.pending.slots.lookup slot = some bucket ∧ bucket.stamp ≤ entry.highWater) ∨
      ∃ stamp, drainer.pending.inFlightStamp = some stamp ∧ stamp ≤ entry.highWater := by
  rcases conserving.covered position entry isEntry with waiting | flying | done
  · obtain ⟨slot, bucket, _, isBucket, _, _, old⟩ := waiting
    exact Or.inl ⟨slot, bucket, isBucket, old⟩
  · obtain ⟨taken, inFlight, _, _, member, _, old⟩ := flying
    refine Or.inr ⟨taken.oldestStamp, ?_, old⟩
    rw [conserving.stamped, inFlight]
    simp [isEmpty_eq_false member]
  · contradiction

/-- Whatever is queued, drained, failed and put back: every entry ever queued is queued, in flight or
executed since with a cutoff as large; no cutoff was made up; a window is exactly the oldest slots with the
greatest cutoff of each key; a quiescent queue has executed everything; and the lag never understates an
entry that is still waiting. -/
theorem cleanup_queue_conserves_work {intervalSlots : ℕ} {events : List Event}
    (run : Run (start intervalSlots) step (fun _ _ _ => True) events drainer) :
    (∀ position entry, drainer.enqueued[position]? = some entry →
      (∃ cutoff, drainer.pending.Holds entry.key cutoff ∧ entry.cutoff ≤ cutoff) ∨ drainer.InFlight entry ∨
        drainer.Executed position entry) ∧
    (∀ key cutoff, (drainer.pending.Holds key cutoff ∨
        ∃ execution ∈ drainer.executed, execution.key = key ∧ execution.cutoff = cutoff) →
      ∃ entry ∈ drainer.enqueued, entry.key = key ∧ cutoff ≤ entry.cutoff) ∧
    ((drainer.pending.takeWindow.1.items.map Prod.fst).Nodup ∧
      (∀ key cutoff, (key, cutoff) ∈ drainer.pending.takeWindow.1.items ↔
        IsGreatest {held | ∃ slot, drainer.pending.InWindow slot ∧ ∃ bucket,
          drainer.pending.slots.lookup slot = some bucket ∧ bucket.keys.lookup key = some held} cutoff) ∧
      ∀ slot, (drainer.pending.InWindow slot → drainer.pending.takeWindow.2.slots.lookup slot = none) ∧
        (¬drainer.pending.InWindow slot →
          drainer.pending.takeWindow.2.slots.lookup slot = drainer.pending.slots.lookup slot)) ∧
    (drainer.pending.isQuiescent → ∀ position entry, drainer.enqueued[position]? = some entry →
      drainer.Executed position entry) ∧
    ∀ position entry, drainer.enqueued[position]? = some entry → ¬drainer.Executed position entry →
      drainer.pending.highWater - entry.highWater ≤ drainer.pending.lagSlots := by
  have conserving := conserving_run run
  refine ⟨?_, ?_, ⟨drainer.pending.nodup_takeWindow, fun key cutoff => Pending.mem_takeWindow_iff, ?_⟩, ?_, ?_⟩
  · intro position entry isEntry
    rcases conserving.covered position entry isEntry with waiting | flying | done
    · obtain ⟨slot, bucket, held, isBucket, isHeld, enough, _⟩ := waiting
      exact Or.inl ⟨held, ⟨slot, bucket, isBucket, isHeld⟩, enough⟩
    · obtain ⟨taken, inFlight, _, held, member, enough, _⟩ := flying
      exact Or.inr (Or.inl ⟨taken, inFlight, held, member, enough⟩)
    · exact Or.inr (Or.inr done)
  · rintro key cutoff (holds | ⟨execution, member, rfl, rfl⟩)
    · obtain ⟨entry, isEntry, sameKey, sameCutoff⟩ := conserving.queuedCutoff key cutoff holds
      exact ⟨entry, isEntry, sameKey, sameCutoff.ge⟩
    · obtain ⟨entry, isEntry, sameKey, sameCutoff⟩ := conserving.executedCutoff execution member
      exact ⟨entry, isEntry, sameKey, sameCutoff.ge⟩
  · classical
    intro slot
    rw [Pending.lookup_takeWindow]
    exact ⟨fun inWindow => if_pos inWindow, fun outside => if_neg outside⟩
  · intro quiescent position entry isEntry
    by_contra notExecuted
    obtain ⟨noSlots, noFlight⟩ := (Bool.and_eq_true _ _).mp quiescent
    rcases conserving.outstanding isEntry notExecuted with ⟨slot, bucket, isBucket, _⟩ | ⟨stamp, isStamp, _⟩
    · rw [HashMap.lookup_eq_some_iff, List.isEmpty_iff.mp noSlots] at isBucket
      simp at isBucket
    · rw [isStamp] at noFlight
      simp at noFlight
  · intro position entry isEntry notExecuted
    exact le_lagSlots (conserving.outstanding isEntry notExecuted)

/-- A window fails while a newer slot queues the same key, and the window after it takes both. -/
private def retried : List Event :=
  [.enqueue 10 [(⟨some 1, 7⟩, 10), (⟨none, 8⟩, 11)], .take, .enqueue 12 [(⟨some 1, 7⟩, 13)], .fail, .take]

theorem cleanup_queue_conserves_work_retried :
    ∃ drainer, Run (start 2) step (fun _ _ _ => True) retried drainer ∧
      ((∃ cutoff, drainer.pending.Holds ⟨some 1, 7⟩ cutoff ∧ 10 ≤ cutoff) ∨
        drainer.InFlight ⟨⟨some 1, 7⟩, 10, 10⟩ ∨ drainer.Executed 0 ⟨⟨some 1, 7⟩, 10, 10⟩) := by
  have replayed : (Run.replay step (fun _ _ _ => True) [] (start 2) retried).any
      (fun drainer => decide (drainer.enqueued[0]? = some ⟨⟨some 1, 7⟩, 10, 10⟩)) = true := by decide +kernel
  obtain ⟨drainer, ran, isEntry⟩ := (Option.any_eq_true _ _).mp replayed
  have run := Run.replayed ran
  exact ⟨drainer, run, (cleanup_queue_conserves_work run).1 0 _ (of_decide_eq_true isEntry)⟩

end Drainer

end Cloudbreak.Model.Cleanup
