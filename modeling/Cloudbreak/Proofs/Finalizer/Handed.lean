import Cloudbreak.ToMathlib.Run
import Cloudbreak.Proofs.Finalizer.Ancestors

/-! # Every recorded block is handed to finalization once

The invariant keeps waiting blocks above every finalized slot and the handed slots in ascending order. It
needs a block to be recorded before the worker passes its slot, and the walk from a taken slot to find every
block that waits below it. Neither is checked: a notification taken before its block is recorded leaves the
block waiting for good.
-/

namespace Cloudbreak.Model.Finalizer

open Cloudbreak.ToMathlib
open SelfHealing (ChainBlock SingleChain)

/-- What a single chain brings: blocks of the chain, and slots of its blocks. -/
def Event.OfChain (chain : SingleChain) : Event → Prop
  | record block _ => block ∈ chain.blocks
  | recordRepaired slot _ | notified slot | enqueue slot => ∃ block ∈ chain.blocks, block.slot = slot
  | pause | resume | take | finalize => True

instance (chain : SingleChain) : DecidablePred (Event.OfChain chain)
  | .record block _ => inferInstanceAs (Decidable (block ∈ chain.blocks))
  | .recordRepaired slot _ | .notified slot | .enqueue slot =>
    inferInstanceAs (Decidable (∃ block ∈ chain.blocks, block.slot = slot))
  | .pause | .resume | .take | .finalize => inferInstanceAs (Decidable True)

namespace Worker

variable {chain : SingleChain} {worker next : Worker} {bound slot : ℕ} {event : Event} {events : List Event}
  {entry : BlockEntry}

/-- A slot is recorded for the first time, above every finalized slot. -/
def RecordsNew (worker : Worker) (slot : ℕ) : Prop :=
  slot ∉ worker.recorded ∧ ∀ done ∈ worker.finalized, done < slot

/-- A block is recorded once and before the worker passes its slot, and from a taken slot the walk can reach
every block that waits below it. -/
def InTime (chain : SingleChain) (worker : Worker) : Event → Prop
  | .record block _ => worker.RecordsNew block.slot
  | .recordRepaired slot _ => worker.RecordsNew slot
  | .finalize => ∀ slot, worker.taken = some slot → FinalizerInner.Reaches chain worker.inner.blocks slot
  | _ => True

instance (worker : Worker) (slot : ℕ) : Decidable (worker.RecordsNew slot) := inferInstanceAs (Decidable (_ ∧ _))

instance (chain : SingleChain) (worker : Worker) : DecidablePred (worker.InTime chain)
  | .record block _ => inferInstanceAs (Decidable (worker.RecordsNew block.slot))
  | .recordRepaired slot _ => inferInstanceAs (Decidable (worker.RecordsNew slot))
  | .finalize => inferInstanceAs (Decidable (∀ slot, worker.taken = some slot →
      FinalizerInner.Reaches chain worker.inner.blocks slot))
  | .notified _ | .enqueue _ | .pause | .resume | .take => inferInstanceAs (Decidable True)

structure Sound (chain : SingleChain) (worker : Worker) : Prop where
  onChain : FinalizerInner.OnChain chain worker.inner.blocks
  typed : FinalizerInner.Typed chain worker.inner.blocks
  queued : ∀ slot, slot ∈ worker.inner.pending ∨ worker.taken = some slot → ∃ block ∈ chain.blocks, block.slot = slot
  above : ∀ waiting ∈ worker.inner.blocks, ∀ done ∈ worker.finalized, done < waiting
  recorded : ∀ slot, slot ∈ worker.recorded ↔ slot ∈ worker.inner.blocks ∨ slot ∈ worker.handed
  ordered : worker.handed.Pairwise (· < ·)
  handed : ∀ slot ∈ worker.handed, slot ∈ worker.finalized

theorem Sound.start (chain : SingleChain) : Sound chain start where
  onChain := by simp [FinalizerInner.OnChain, Worker.start, FinalizerInner.new]
  typed := by simp [FinalizerInner.Typed, Worker.start, FinalizerInner.new]
  queued := by simp [Worker.start, FinalizerInner.new]
  above := by simp [Worker.start]
  recorded := by simp [Worker.start, FinalizerInner.new]
  ordered := List.Pairwise.nil
  handed := by simp [Worker.start]

theorem Sound.record (sound : Sound chain worker) (isSlot : ∃ block ∈ chain.blocks, block.slot = slot)
    (typed : entry.parentBlockhash = "" ∨ ∃ block ∈ chain.blocks, block.slot = slot ∧ entry.IsLive block)
    (new : worker.RecordsNew slot) : Sound chain (worker.record slot entry) where
  onChain := by
    intro waiting member
    rcases (AList.mem_insert _).mp member with rfl | before
    · exact isSlot
    · exact sound.onChain waiting before
  typed := by
    intro other held found
    rw [Worker.record, FinalizerInner.recordBlock, HashMap.lookup_insert] at found
    split at found
    · next same =>
      cases found
      exact same ▸ typed
    · exact sound.typed other held found
  queued := sound.queued
  above := by
    intro waiting member done isDone
    rcases (AList.mem_insert _).mp member with rfl | before
    · exact new.2 done isDone
    · exact sound.above waiting before done isDone
  recorded := by
    intro other
    change other ∈ worker.recorded ++ [slot] ↔ other ∈ worker.inner.blocks.insert slot entry ∨ other ∈ worker.handed
    rw [List.mem_append, List.mem_singleton, sound.recorded, AList.mem_insert]
    tauto
  ordered := sound.ordered
  handed := sound.handed

/-- Only the queue, the pause reasons or the taken slot change. -/
theorem Sound.requeue (sound : Sound chain worker) (sameBlocks : next.inner.blocks = worker.inner.blocks)
    (sameRecorded : next.recorded = worker.recorded) (sameFinalized : next.finalized = worker.finalized)
    (sameHanded : next.handed = worker.handed)
    (queued : ∀ slot, slot ∈ next.inner.pending ∨ next.taken = some slot →
      ∃ block ∈ chain.blocks, block.slot = slot) : Sound chain next where
  onChain := sameBlocks ▸ sound.onChain
  typed := sameBlocks ▸ sound.typed
  queued := queued
  above := by rw [sameBlocks, sameFinalized]; exact sound.above
  recorded := by rw [sameBlocks, sameRecorded, sameHanded]; exact sound.recorded
  ordered := sameHanded ▸ sound.ordered
  handed := by rw [sameHanded, sameFinalized]; exact sound.handed

theorem Sound.enqueue (sound : Sound chain worker) (isSlot : ∃ block ∈ chain.blocks, block.slot = slot) :
    Sound chain { worker with inner := worker.inner.enqueueUnbounded slot } := by
  refine sound.requeue rfl rfl rfl rfl fun other isQueued => ?_
  rcases isQueued with pending | taken
  · rcases Finset.mem_insert.mp pending with rfl | before
    · exact isSlot
    · exact sound.queued other (Or.inl before)
  · exact sound.queued other (Or.inr taken)

theorem Sound.take (sound : Sound chain worker) (takes : worker.take = some next) : Sound chain next := by
  rw [Worker.take] at takes
  split at takes
  · contradiction
  · split at takes
    · next waiting =>
      cases takes
      refine sound.requeue rfl rfl rfl rfl fun other isQueued => ?_
      rcases isQueued with pending | taken
      · exact sound.queued other (Or.inl (Finset.mem_of_mem_erase pending))
      · cases taken
        exact sound.queued _ (Or.inl (Finset.min'_mem _ waiting))
    · contradiction

theorem Sound.finalize (sound : Sound chain worker) (taken : worker.taken = some slot)
    (reaches : FinalizerInner.Reaches chain worker.inner.blocks slot) :
    Sound chain (worker.finalizeWithAncestors slot) := by
  obtain ⟨block, isBlock, rfl⟩ := sound.queued slot (Or.inr taken)
  obtain ⟨⟨lower, areSlots, ascending, members⟩, map⟩ :=
    FinalizerInner.getSlotAncestors_collects isBlock sound.onChain sound.typed reaches
  let waits : ℕ → Bool := fun slot => (worker.inner.blocks.lookup slot).isSome
  have isWaiting : ∀ slot, waits slot = true ↔ slot ∈ worker.inner.blocks := fun slot => AList.lookup_isSome
  have isFinalized : ∀ slot, slot ∈ (worker.finalizeWithAncestors block.slot).finalized ↔
      slot ∈ worker.finalized ∨ slot ∈ lower ∨ slot = block.slot := by
    intro slot
    change slot ∈ worker.finalized ++ (worker.inner.getSlotAncestors block.slot).1.map Prod.fst ↔ _
    rw [areSlots, List.mem_append, List.mem_append, List.mem_singleton]
  have handedIs : (worker.finalizeWithAncestors block.slot).handed =
      worker.handed ++ (lower ++ [block.slot]).filter waits := by
    change worker.handed ++ ((worker.inner.getSlotAncestors block.slot).1.map Prod.fst).filter waits = _
    rw [areSlots]
  have isHanded : ∀ slot, slot ∈ (lower ++ [block.slot]).filter waits ↔
      slot ≤ block.slot ∧ slot ∈ worker.inner.blocks := by
    intro slot
    rw [List.mem_filter, isWaiting, List.mem_append, List.mem_singleton, members]
    constructor
    · rintro ⟨⟨low, _⟩ | rfl, waiting⟩
      · exact ⟨low.le, waiting⟩
      · exact ⟨le_rfl, waiting⟩
    · rintro ⟨low, waiting⟩
      rcases low.lt_or_eq with under | same
      · exact ⟨Or.inl ⟨under, waiting⟩, waiting⟩
      · exact ⟨Or.inr same, waiting⟩
  have stays : ∀ slot, slot ∈ (worker.finalizeWithAncestors block.slot).inner.blocks ↔
      block.slot < slot ∧ slot ∈ worker.inner.blocks := by
    intro slot
    change slot ∈ (worker.inner.getSlotAncestors block.slot).2.blocks ↔ _
    rw [← AList.lookup_isSome, map slot, ← AList.lookup_isSome]
    split
    · next low =>
      simp only [Option.isSome_none, Bool.false_eq_true, false_iff]
      omega
    · next high =>
      simp only [Nat.lt_of_not_le high, true_and]
  constructor
  case onChain => exact fun waiting member => sound.onChain waiting ((stays waiting).mp member).2
  case typed =>
    intro other held found
    have keptSame := map other
    change (worker.inner.getSlotAncestors block.slot).2.blocks.lookup other = some held at found
    rw [found] at keptSame
    split at keptSame
    · contradiction
    · exact sound.typed other held keptSame.symm
  case queued =>
    rintro other (pending | gone)
    · exact sound.queued other (Or.inl (FinalizerInner.mem_pending_of_getSlotAncestors pending))
    · contradiction
  case above =>
    intro waiting member done isDone
    obtain ⟨high, before⟩ := (stays waiting).mp member
    rcases (isFinalized done).mp isDone with earlier | low | rfl
    · exact sound.above waiting before done earlier
    · exact ((members done).mp low).1.trans high
    · exact high
  case recorded =>
    intro other
    rw [stays, handedIs, List.mem_append, isHanded]
    refine (sound.recorded other).trans ?_
    constructor
    · rintro (waiting | done)
      · rcases Nat.lt_or_ge block.slot other with high | low
        · exact Or.inl ⟨high, waiting⟩
        · exact Or.inr (Or.inr ⟨low, waiting⟩)
      · exact Or.inr (Or.inl done)
    · rintro (⟨_, waiting⟩ | done | ⟨_, waiting⟩)
      · exact Or.inl waiting
      · exact Or.inr done
      · exact Or.inl waiting
  case ordered =>
    rw [handedIs, List.pairwise_append]
    refine ⟨sound.ordered, ?_, ?_⟩
    · refine List.Pairwise.filter _ (List.pairwise_append.mpr ⟨ascending, List.pairwise_singleton _ _, ?_⟩)
      intro slot member last isLast
      rw [List.mem_singleton.mp isLast]
      exact ((members slot).mp member).1
    · intro earlier before slot member
      exact sound.above slot ((isHanded slot).mp member).2 earlier (sound.handed earlier before)
  case handed =>
    intro other member
    rw [handedIs, List.mem_append, isHanded] at member
    rw [isFinalized, members]
    rcases member with before | ⟨low, waiting⟩
    · exact Or.inl (sound.handed other before)
    · rcases low.lt_or_eq with under | same
      · exact Or.inr (Or.inl ⟨under, waiting⟩)
      · exact Or.inr (Or.inr same)

theorem Sound.step (sound : Sound chain worker) (ofChain : event.OfChain chain) (inTime : worker.InTime chain event)
    (moves : worker.step bound event = some next) : Sound chain next := by
  cases event with
  | record block accounts =>
    cases moves
    exact sound.record ⟨block, ofChain, rfl⟩ (Or.inr ⟨block, ofChain, rfl, rfl, rfl, rfl⟩) inTime
  | recordRepaired slot accounts =>
    cases moves
    exact sound.record ofChain (Or.inl rfl) inTime
  | notified slot =>
    obtain ⟨inner, queues, rfl⟩ := Option.map_eq_some_iff.mp moves
    rw [FinalizerInner.noteFinalized] at queues
    split at queues
    · cases queues
      exact sound.enqueue ofChain
    · contradiction
  | enqueue slot =>
    cases moves
    exact sound.enqueue ofChain
  | pause =>
    cases moves
    exact sound.requeue rfl rfl rfl rfl sound.queued
  | resume =>
    cases moves
    exact sound.requeue rfl rfl rfl rfl sound.queued
  | take => exact sound.take moves
  | finalize =>
    obtain ⟨slot, isTaken, rfl⟩ := Option.map_eq_some_iff.mp moves
    exact sound.finalize isTaken (inTime slot isTaken)

/-- In a run of one chain in which no block comes too late and every walk reaches what waits below, no
recorded block at or below a finalized slot is left waiting, a recorded block is handed over once unless it
still waits, and a block is handed over after its recorded parent. -/
theorem recorded_blocks_are_handed_once
    (run : Run start (step bound) (fun _ worker event => event.OfChain chain ∧ worker.InTime chain event)
      events worker) :
    (∀ slot ∈ worker.recorded, (∃ done ∈ worker.finalized, slot ≤ done) → worker.handed.count slot = 1) ∧
    (∀ slot ∈ worker.recorded,
      worker.handed.count slot + (if slot ∈ worker.inner.blocks then 1 else 0) = 1) ∧
    ∀ parent child, [parent, child] <:+: chain.blocks → parent.slot ∈ worker.recorded →
      child.slot ∈ worker.handed → List.Sublist [parent.slot, child.slot] worker.handed := by
  have sound : Sound chain worker :=
    Run.stateInvariant (Sound.start chain)
      (fun _ _ _ _ sound guard moves => sound.step guard.1 guard.2 moves) run
  have once : worker.handed.Nodup := sound.ordered.imp ne_of_lt
  have passed : ∀ slot ∈ worker.recorded, (∃ done ∈ worker.finalized, slot ≤ done) → slot ∈ worker.handed := by
    rintro slot isRecorded ⟨done, isDone, low⟩
    rcases (sound.recorded slot).mp isRecorded with waiting | handed
    · exact absurd low (Nat.not_le.mpr (sound.above slot waiting done isDone))
    · exact handed
  refine ⟨fun slot isRecorded isPassed => List.count_eq_one_of_mem once (passed slot isRecorded isPassed), ?_, ?_⟩
  · intro slot isRecorded
    rcases (sound.recorded slot).mp isRecorded with waiting | handed
    · have absent : slot ∉ worker.handed := fun handed =>
        lt_irrefl slot (sound.above slot waiting slot (sound.handed slot handed))
      rw [List.count_eq_zero_of_not_mem absent, if_pos waiting]
    · have gone : slot ∉ worker.inner.blocks := fun waiting =>
        lt_irrefl slot (sound.above slot waiting slot (sound.handed slot handed))
      rw [List.count_eq_one_of_mem once handed, if_neg gone]
  · intro parent child adjacent isRecorded handed
    have below : parent.slot < child.slot := by
      have linked := chain.linked.infix adjacent
      exact (List.isChain_pair.mp linked).1
    have parentHanded := passed parent.slot isRecorded ⟨child.slot, sound.handed _ handed, below.le⟩
    refine List.sublist_of_subperm_of_pairwise (List.subperm_of_subset (by simp [below.ne]) ?_)
      (List.pairwise_pair.mpr below.le) (sound.ordered.imp le_of_lt)
    simp [parentHanded, handed]

section Examples

private def numbered (slot : ℕ) : ChainBlock := ⟨slot, toString slot, slot - 1, toString (slot - 1)⟩

private def fromTen : SingleChain :=
  ⟨(List.range' 10 5).map numbered, by decide +kernel, by decide +kernel, by decide +kernel⟩

/-- Block 13 is missed and repaired, with 12 as the boundary of the gap; no block below it was notified. -/
private def repairing : List Event :=
  [.record (numbered 10) .empty, .record (numbered 11) .empty, .record (numbered 12) .empty, .pause,
    .recordRepaired 13 .empty, .enqueue 13, .enqueue 12, .record (numbered 14) .empty, .resume, .take, .finalize,
    .take, .finalize, .notified 14, .take, .finalize]

theorem recorded_blocks_are_handed_once_repairing :
    ∃ worker, Run start (step 2) (fun _ worker event => event.OfChain fromTen ∧ worker.InTime fromTen event)
      repairing worker ∧ worker.handed.count 11 = 1 := by
  have replayed : (Run.replay (step 2)
      (fun _ worker event => event.OfChain fromTen ∧ worker.InTime fromTen event) [] start repairing).any
      (fun worker => decide (11 ∈ worker.recorded ∧ ∃ done ∈ worker.finalized, 11 ≤ done)) = true := by
    decide +kernel
  obtain ⟨worker, ran, passed⟩ := (Option.any_eq_true _ _).mp replayed
  obtain ⟨isRecorded, isPassed⟩ := of_decide_eq_true passed
  have run := Run.replayed ran
  exact ⟨worker, run, (recorded_blocks_are_handed_once run).1 11 isRecorded isPassed⟩

/-- A notification that is drained before its block comes leaves the block waiting. -/
theorem late_block_is_left_waiting :
    ¬∀ (chain : SingleChain) (bound : ℕ) (events : List Event) (worker : Worker),
      Run start (step bound) (fun _ _ event => event.OfChain chain) events worker →
      worker.inner.pending = ∅ → worker.taken = none →
      (∀ slot ∈ worker.recorded, (∃ done ∈ worker.finalized, slot ≤ done) → slot ∉ worker.inner.blocks) ∧
      (∀ slot ∈ worker.recorded,
        worker.handed.count slot + (if slot ∈ worker.inner.blocks then 1 else 0) = 1) ∧
      ∀ parent child, [parent, child] <:+: chain.blocks → parent.slot ∈ worker.recorded →
        child.slot ∈ worker.handed → List.Sublist [parent.slot, child.slot] worker.handed := by
  intro claim
  have replayed : (Run.replay (step 2) (fun _ _ event => event.OfChain fromTen) [] start
      [.notified 10, .take, .finalize, .record (numbered 10) .empty]).any
      (fun worker => decide (worker.inner.pending = ∅ ∧ worker.taken = none ∧ 10 ∈ worker.recorded ∧
        10 ∈ worker.finalized ∧ 10 ∈ worker.inner.blocks)) = true := by
    decide +kernel
  obtain ⟨worker, ran, holds⟩ := (Option.any_eq_true _ _).mp replayed
  obtain ⟨drained, idle, isRecorded, isDone, waits⟩ := of_decide_eq_true holds
  exact (claim fromTen 2 _ worker (Run.replayed ran) drained idle).1 10 isRecorded ⟨10, isDone, le_rfl⟩ waits

end Examples

end Worker

end Cloudbreak.Model.Finalizer
