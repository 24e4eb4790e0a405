import Cloudbreak.ToMathlib.Run
import Cloudbreak.Model.SelfHealing.Tasks

/-! # Nothing is finalized or reported healthy over an open gap

The pause and the health reason are flipped together, before the first suspension of either task, so they
follow the list in every interleaving. The supply status is not: the empty-list path of a tick leaves a
tracker in gap filling as it is, a check that was overtaken by the fill marks a gap that is closed, and a
tracker that goes live later has missed the mark. The row in the database follows the reasons as long as the
writes arrive in the order they were issued.
-/

namespace Cloudbreak.Model.SelfHealing

open Cloudbreak.ToMathlib
open Finalizer (FinalizerInner PauseReason)
open Supply (SupplyState)

namespace ServiceHealth

variable {health next : ServiceHealth} {task other : Task} {reason : HealthReason}

/-- The row says unhealthy, or a write that says so is the last one on its way. -/
def Settles (health : ServiceHealth) : Prop :=
  health.writes.getLast? = some (.main, false) ∨ health.writes = [] ∧ health.healthy = false

private theorem mem_reasons_addReason : reason ∈ (health.addReason task reason).reasons := by
  rw [addReason]
  split
  · assumption
  · exact Finset.mem_insert_self _ _

private theorem settles_addReason (new : reason ∉ health.reasons) : (health.addReason .main reason).Settles := by
  rw [addReason, if_neg new]
  exact Or.inl List.getLast?_concat

private theorem reasons_removeReason : (health.removeReason task reason).reasons = health.reasons.erase reason := by
  rw [removeReason]
  split <;> rfl

/-- Removing one reason while another holds writes nothing. -/
theorem removeReason_of_other {held : HealthReason} (holds : held ∈ health.reasons) (differs : held ≠ reason) :
    health.removeReason task reason = { health with reasons := health.reasons.erase reason } := by
  have kept : health.reasons.erase reason ≠ ∅ :=
    Finset.ne_empty_of_mem (Finset.mem_erase.mpr ⟨differs, holds⟩)
  rw [removeReason, if_neg fun cleared => kept cleared.2]

private theorem awaits_removeReason (differs : other ≠ task) :
    (health.removeReason task reason).Awaits other ↔ health.Awaits other := by
  rw [removeReason]
  split
  · simp [updateServiceHealth, Awaits, differs]
  · rfl

/-- The oldest write arrives. -/
theorem written_head (first : health.writes.head?.map Prod.fst = some task) (written : health.written task = some next) :
    ∃ healthy rest, health.writes = (task, healthy) :: rest ∧ next = { health with writes := rest, healthy } := by
  cases issued : health.writes with
  | nil => simp [issued] at first
  | cons write rest =>
    rw [issued, List.head?_cons, Option.map_some, Option.some.injEq] at first
    refine ⟨write.2, rest, by rw [← first], ?_⟩
    rw [ServiceHealth.written, issued, List.find?_cons_of_pos (by simp [first]), Option.map_some,
      Option.some.injEq, List.erase_cons_head] at written
    exact written.symm

end ServiceHealth

namespace SelfHealingState

variable {state next : SelfHealingState} {block : ChainBlock} {event : TaskEvent} {events : List TaskEvent}
  {cap failPinCap : ℕ}

/-- The writes of the health row arrive in order, a check does not come back from its pause after its gap was
closed, no tick finds the list empty with the tracker in gap filling, and the tracker does not go live over an
open gap. -/
def InOrder (state : SelfHealingState) : TaskEvent → Prop
  | .written task => state.health.writes.head?.map Prod.fst = some task
  | .mainResumes => state.detector.gapsList ≠ []
  | .tick => state.detector.gapsList = [] → state.supply.status ≠ .gapFilling
  | .finishBootstrap _ => state.main = .idle → state.detector.gapsList = []
  | _ => True

instance (state : SelfHealingState) : DecidablePred state.InOrder
  | .written task => inferInstanceAs (Decidable (state.health.writes.head?.map Prod.fst = some task))
  | .mainResumes => inferInstanceAs (Decidable (state.detector.gapsList ≠ []))
  | .tick => inferInstanceAs (Decidable (state.detector.gapsList = [] → state.supply.status ≠ .gapFilling))
  | .finishBootstrap _ => inferInstanceAs (Decidable (state.main = .idle → state.detector.gapsList = []))
  | .received _ | .fetched _ | .gaveUp | .repaired _ | .filled | .fillResumes | .startupFinished
  | .setStartupTotal _ _ | .markStale => inferInstanceAs (Decidable True)

structure Sound (state : SelfHealingState) : Prop where
  paired : .gapFill ∈ state.finalizer.pauseReasons ↔ .gapFill ∈ state.health.reasons
  opened : state.detector.gapsList ≠ [] →
    .gapFill ∈ state.finalizer.pauseReasons ∧ state.settled = false ∧ state.fill ≠ .resuming true
  reported : .gapFill ∈ state.health.reasons → state.health.Settles
  idle : state.main = .idle → ¬state.health.Awaits .main
  marked : state.main = .idle → state.detector.gapsList ≠ [] → state.supply.status ≠ .live
  closed : state.settled = true ∨ state.fill = .resuming true →
    .gapFill ∉ state.finalizer.pauseReasons ∧ state.supply.status ≠ .gapFilling

private theorem sound_new (cap failPinCap : ℕ) : Sound (new cap failPinCap) where
  paired := by simp [new, FinalizerInner.new, ServiceHealth.new]
  opened := by simp [new, Detector.new]
  reported := by simp [new, ServiceHealth.new]
  idle := by simp [new, ServiceHealth.new, ServiceHealth.Awaits]
  marked := by simp [new, Detector.new]
  closed := by simp [new]

private theorem status_markGap (supply : SupplyState) : supply.markGap.1.status ≠ .live := by
  rw [SupplyState.markGap]
  split
  · assumption
  · exact Supply.SupplyStatus.noConfusion

private theorem status_finishGap (supply : SupplyState) : supply.finishGap.status ≠ .gapFilling := by
  rw [SupplyState.finishGap]
  split
  · exact Supply.SupplyStatus.noConfusion
  · assumption

private theorem status_finishBootstrap {supply : SupplyState} {startupBalances : HashMap Pubkey ℕ}
    {live : SupplyState × Supply.SupplyCommit} (finishes : supply.finishBootstrap startupBalances = some live) :
    live.1.status = .live := by
  rw [SupplyState.finishBootstrap] at finishes
  split at finishes
  · contradiction
  · obtain ⟨window, _, isLive⟩ := Option.bind_eq_some_iff.mp finishes
    cases isLive
    rfl

/-- A slot less in the list, with the tasks as they were. -/
theorem Sound.shrink (sound : Sound state) (detector : Detector)
    (fewer : detector.gapsList ⊆ state.detector.gapsList) : Sound { state with detector } := by
  have still : detector.gapsList ≠ [] → state.detector.gapsList ≠ [] := by
    intro left_ empty
    exact left_ (List.subset_nil.mp (empty ▸ fewer))
  exact {
    paired := sound.paired
    opened := fun left_ => sound.opened (still left_)
    reported := sound.reported
    idle := sound.idle
    marked := fun isIdle left_ => sound.marked isIdle (still left_)
    closed := sound.closed }

theorem gapsList_removeSlot_subset (detector : Detector) (slot : ℕ) :
    (detector.removeSlotFromGapsList slot).gapsList ⊆ detector.gapsList :=
  List.filter_subset_self _

private theorem gapsList_foldl_removeSlot_subset (slots : List ℕ) (detector : Detector) :
    (slots.foldl Detector.removeSlotFromGapsList detector).gapsList ⊆ detector.gapsList := by
  induction slots generalizing detector with
  | nil => exact List.Subset.refl _
  | cons slot rest ih => exact List.Subset.trans (ih _) (gapsList_removeSlot_subset detector slot)

/-- Only the fill task moves on, to a state that is no resume. -/
theorem Sound.setFill (sound : Sound state) {fill : FillTask} (notResuming : ∀ stillEmpty, fill ≠ .resuming stillEmpty) :
    Sound { state with fill } where
  paired := sound.paired
  opened := fun left_ => ⟨(sound.opened left_).1, (sound.opened left_).2.1, notResuming true⟩
  reported := sound.reported
  idle := sound.idle
  marked := sound.marked
  closed := by
    rintro (isSettled | isResuming)
    · exact sound.closed (Or.inl isSettled)
    · exact absurd isResuming (notResuming true)

/-- The finalizer's queue is not part of it. -/
theorem Sound.setPending (sound : Sound state) (pending : Finset ℕ) :
    Sound { state with finalizer := { state.finalizer with pending } } :=
  ⟨sound.paired, sound.opened, sound.reported, sound.idle, sound.marked, sound.closed⟩

/-- Only the tracker changes. -/
theorem Sound.setSupply (sound : Sound state) {supply : SupplyState}
    (marked : state.main = .idle → state.detector.gapsList ≠ [] → supply.status ≠ .live)
    (closed : state.settled = true ∨ state.fill = .resuming true → supply.status ≠ .gapFilling) :
    Sound { state with supply } :=
  ⟨sound.paired, sound.opened, sound.reported, sound.idle, marked,
    fun isClosed => ⟨(sound.closed isClosed).1, closed isClosed⟩⟩

/-- A gap is queued and finalization paused for it. -/
structure Paused (state : SelfHealingState) : Prop where
  paired : .gapFill ∈ state.finalizer.pauseReasons ∧ .gapFill ∈ state.health.reasons
  unsettled : state.settled = false ∧ state.fill ≠ .resuming true
  queued : state.detector.gapsList ≠ []
  reported : state.health.Settles

theorem Paused.finishCheck (paused : Paused state) (written : ¬state.health.Awaits .main) (block : ChainBlock) :
    Sound (state.finishCheck block) where
  paired := ⟨fun _ => paused.paired.2, fun _ => paused.paired.1⟩
  opened := fun _ => ⟨paused.paired.1, paused.unsettled⟩
  reported := fun _ => paused.reported
  idle := fun _ => written
  marked := fun _ _ => status_markGap _
  closed := by
    rintro (isSettled | isResuming)
    · exact absurd (paused.unsettled.1.symm.trans isSettled) Bool.false_ne_true
    · exact absurd isResuming paused.unsettled.2

private theorem Paused.suspend (paused : Paused state) (block : ChainBlock) :
    Sound { state with main := .pausing block } where
  paired := ⟨fun _ => paused.paired.2, fun _ => paused.paired.1⟩
  opened := fun _ => ⟨paused.paired.1, paused.unsettled⟩
  reported := fun _ => paused.reported
  idle := MainTask.noConfusion
  marked := MainTask.noConfusion
  closed := by
    rintro (isSettled | isResuming)
    · exact absurd (paused.unsettled.1.symm.trans isSettled) Bool.false_ne_true
    · exact absurd isResuming paused.unsettled.2

theorem Sound.pauseForGap (sound : Sound state) {slots : List ℕ} (isGap : state.detector.verdict block = .gap slots) :
    Paused { state with
      detector := state.detector.queueGap slots
      fill := state.fill.disturb
      settled := false }.pauseForGap where
  paired := by
    refine ⟨Finset.mem_insert_self _ _, ?_⟩
    by_cases running : PauseReason.gapFill ∈ state.finalizer.pauseReasons
    · simpa [SelfHealingState.pauseForGap, FinalizerInner.pause, running] using sound.paired.mp running
    · simpa [SelfHealingState.pauseForGap, FinalizerInner.pause, running] using ServiceHealth.mem_reasons_addReason
  unsettled := by
    refine ⟨rfl, ?_⟩
    change state.fill.disturb ≠ .resuming true
    cases state.fill <;> simp [FillTask.disturb]
  queued := by
    have nonempty : slots ≠ [] := by
      rw [Detector.verdict] at isGap
      split at isGap
      · contradiction
      · split at isGap
        · next far =>
          dsimp only at isGap
          split at isGap
          · contradiction
          · cases isGap
            have := far.2
            simp only [ne_eq, List.range'_eq_nil_iff]
            omega
        · contradiction
    exact List.append_ne_nil_of_right_ne_nil _ nonempty
  reported := by
    by_cases running : PauseReason.gapFill ∈ state.finalizer.pauseReasons
    · simpa [SelfHealingState.pauseForGap, FinalizerInner.pause, running] using
        sound.reported (sound.paired.mp running)
    · simpa [SelfHealingState.pauseForGap, FinalizerInner.pause, running] using
        ServiceHealth.settles_addReason (mt sound.paired.mpr running)

theorem Sound.checkSlotGap (sound : Sound state) (block : ChainBlock) : Sound (state.checkSlotGap block) := by
  rw [SelfHealingState.checkSlotGap]
  split
  · exact sound.shrink _ (gapsList_removeSlot_subset _ _)
  · exact sound.shrink _ (List.Subset.refl _)
  · next slots isGap =>
    have paused := sound.pauseForGap isGap
    dsimp only
    split
    · exact paused.suspend block
    · next written => exact paused.finishCheck written block

theorem Sound.mainResumes (sound : Sound state) (queued : state.detector.gapsList ≠ [])
    (written : ¬state.health.Awaits .main) (block : ChainBlock) : Sound (state.finishCheck block) := by
  obtain ⟨isPaused, unsettled⟩ := sound.opened queued
  have hasReason := sound.paired.mp isPaused
  have paused : Paused state := ⟨⟨isPaused, hasReason⟩, unsettled, queued, sound.reported hasReason⟩
  exact paused.finishCheck written block

/-- The end of a tick over an empty list, with the tracker out of gap filling. -/
theorem Sound.resumeFinalizer (sound : Sound state) (empty : state.detector.gapsList = [])
    (left_ : state.supply.status ≠ .gapFilling) : Sound state.resumeFinalizer := by
  have noReason : .gapFill ∉ (state.health.removeReason .fill .gapFill).reasons := by
    rw [ServiceHealth.reasons_removeReason]
    exact Finset.notMem_erase _ _
  have running : PauseReason.gapFill ∉ state.finalizer.resume.pauseReasons := Finset.notMem_erase _ _
  have quiet : state.main = .idle → ¬(state.health.removeReason .fill .gapFill).Awaits .main := by
    intro isIdle
    rw [ServiceHealth.awaits_removeReason (by decide)]
    exact sound.idle isIdle
  rw [SelfHealingState.resumeFinalizer]
  dsimp only
  split
  all_goals
    exact {
      paired := iff_of_false running noReason
      opened := fun queued => absurd empty queued
      reported := fun hasReason => absurd hasReason noReason
      idle := quiet
      marked := fun _ queued => absurd empty queued
      closed := fun _ => ⟨running, left_⟩ }

theorem Sound.tick (sound : Sound state) (inOrder : state.InOrder .tick) (ticks : state.tick = some next) :
    Sound next := by
  rw [SelfHealingState.tick] at ticks
  split at ticks
  · next empty =>
    cases ticks
    exact sound.resumeFinalizer empty (inOrder empty)
  · split at ticks
    · cases ticks
      exact sound.setFill fun _ => FillTask.noConfusion
    · contradiction

theorem Sound.filled (sound : Sound state) (coveredGaps repairedSlots : List ℕ) (boundaries : Finset ℕ) :
    Sound (state.filled coveredGaps repairedSlots boundaries) := by
  have fewer : (state.detector.dropFilled coveredGaps repairedSlots boundaries).gapsList ⊆
      state.detector.gapsList := gapsList_foldl_removeSlot_subset _ _
  have seeded := (sound.shrink _ fewer).setPending (boundaries ∪ state.finalizer.pending)
  rw [SelfHealingState.filled]
  dsimp only
  split
  · next empty =>
    have left_ := status_finishGap state.supply
    exact (seeded.setSupply (fun _ queued => absurd empty queued) (fun _ => left_)).resumeFinalizer empty left_
  · exact seeded.setFill fun _ => FillTask.noConfusion

theorem Sound.fillResumes (sound : Sound state) {stillEmpty : Bool} (resuming : state.fill = .resuming stillEmpty) :
    Sound { state with fill := .sleeping, settled := state.settled || stillEmpty } where
  paired := sound.paired
  opened := by
    intro queued
    obtain ⟨isPaused, unsettled, notEmpty⟩ := sound.opened queued
    refine ⟨isPaused, ?_, FillTask.noConfusion⟩
    cases stillEmpty with
    | false => simp [unsettled]
    | true => exact absurd resuming notEmpty
  reported := sound.reported
  idle := sound.idle
  marked := sound.marked
  closed := by
    rintro (isSettled | isResuming)
    · rcases (Bool.or_eq_true _ _).mp isSettled with before | foundEmpty
      · exact sound.closed (Or.inl before)
      · exact sound.closed (Or.inr (foundEmpty ▸ resuming))
    · contradiction

/-- Only the health changes, the gap reason stays as it is, and the main loop waits for no more than before. -/
theorem Sound.setHealth (sound : Sound state) (health : ServiceHealth)
    (sameReason : .gapFill ∈ health.reasons ↔ .gapFill ∈ state.health.reasons)
    (reported : .gapFill ∈ state.health.reasons → state.health.Settles → health.Settles)
    (quiet : health.Awaits .main → state.health.Awaits .main) : Sound { state with health } where
  paired := sound.paired.trans sameReason.symm
  opened := sound.opened
  reported := fun hasReason => reported (sameReason.mp hasReason) (sound.reported (sameReason.mp hasReason))
  idle := fun isIdle => mt quiet (sound.idle isIdle)
  marked := sound.marked
  closed := sound.closed

theorem Sound.written (sound : Sound state) {task : Task} {health : ServiceHealth}
    (inOrder : state.InOrder (.written task)) (arrives : state.health.written task = some health) :
    Sound { state with health } := by
  obtain ⟨healthy, rest, issued, rfl⟩ := ServiceHealth.written_head inOrder arrives
  refine sound.setHealth _ Iff.rfl ?_ ?_
  · rintro - (last | ⟨none_, _⟩)
    · rw [issued] at last
      cases rest with
      | nil =>
        cases last
        exact Or.inr ⟨rfl, rfl⟩
      | cons write rest => exact Or.inl (List.getLast?_cons_cons ▸ last)
    · rw [issued] at none_
      contradiction
  · intro waits
    rw [ServiceHealth.Awaits, issued]
    exact List.mem_cons_of_mem _ waits

theorem Sound.startupFinished (sound : Sound state) :
    Sound { state with
      startupFinished := true
      health := state.health.removeReason .startup .startup } := by
  have withHealth : Sound { state with health := state.health.removeReason .startup .startup } := by
    refine sound.setHealth _ ?_ ?_ (ServiceHealth.awaits_removeReason (by decide)).mp
    · rw [ServiceHealth.reasons_removeReason, Finset.mem_erase]
      exact and_iff_right (by decide)
    · intro hasReason settles
      rw [ServiceHealth.removeReason_of_other hasReason (by decide)]
      exact settles
  exact ⟨withHealth.paired, withHealth.opened, withHealth.reported, withHealth.idle, withHealth.marked,
    withHealth.closed⟩

theorem Sound.setStartupTotal (sound : Sound state) (slot capitalization : ℕ) :
    Sound { state with supply := state.supply.setStartupTotal slot capitalization } := by
  refine sound.setSupply ?_ ?_
  all_goals
    rw [SupplyState.setStartupTotal]
    split
  · exact sound.marked
  · exact sound.marked
  · exact fun isClosed => (sound.closed isClosed).2
  · exact fun isClosed => (sound.closed isClosed).2

theorem Sound.markStale (sound : Sound state) : Sound { state with supply := state.supply.markStale.1 } := by
  refine sound.setSupply ?_ ?_
  all_goals
    rw [SupplyState.markStale]
    split
  · exact fun _ _ => Supply.SupplyStatus.noConfusion
  · exact sound.marked
  · exact fun _ => Supply.SupplyStatus.noConfusion
  · exact fun isClosed => (sound.closed isClosed).2

theorem Sound.step (sound : Sound state) (inOrder : state.InOrder event) (moves : state.step event = some next) :
    Sound next := by
  cases event with
  | received block =>
    rw [SelfHealingState.step] at moves
    split at moves
    · cases moves
      exact sound.checkSlotGap block
    · contradiction
  | mainResumes =>
    rw [SelfHealingState.step] at moves
    split at moves
    · next block _ =>
      split at moves
      · contradiction
      · next written =>
        cases moves
        exact sound.mainResumes inOrder written block
    · contradiction
  | tick =>
    rw [SelfHealingState.step] at moves
    split at moves
    · exact sound.tick inOrder moves
    · contradiction
  | fetched baseSlot =>
    rw [SelfHealingState.step] at moves
    split at moves
    · cases moves
      refine sound.setFill fun stillEmpty => ?_
      split <;> exact FillTask.noConfusion
    · contradiction
  | gaveUp =>
    rw [SelfHealingState.step] at moves
    split at moves
    · cases moves
      exact sound.setFill fun _ => FillTask.noConfusion
    · contradiction
  | repaired slot =>
    rw [SelfHealingState.step] at moves
    split at moves
    · cases moves
      exact ((sound.shrink _ (gapsList_removeSlot_subset _ slot)).setPending
        (insert slot state.finalizer.pending)).setFill fun _ => FillTask.noConfusion
    · contradiction
  | filled =>
    rw [SelfHealingState.step] at moves
    split at moves
    · cases moves
      exact sound.filled _ _ _
    · contradiction
  | fillResumes =>
    rw [SelfHealingState.step] at moves
    split at moves
    · next stillEmpty resuming =>
      split at moves
      · contradiction
      · cases moves
        exact sound.fillResumes resuming
    · contradiction
  | written task =>
    obtain ⟨health, arrives, rfl⟩ := Option.map_eq_some_iff.mp moves
    exact sound.written inOrder arrives
  | startupFinished =>
    rw [SelfHealingState.step] at moves
    split at moves
    · contradiction
    · cases moves
      exact sound.startupFinished
  | setStartupTotal slot capitalization =>
    cases moves
    exact sound.setStartupTotal slot capitalization
  | finishBootstrap startupBalances =>
    obtain ⟨⟨live, row⟩, finishes, rfl⟩ := Option.map_eq_some_iff.mp moves
    refine sound.setSupply (fun isIdle queued => absurd (inOrder isIdle) queued) fun _ => ?_
    rw [status_finishBootstrap finishes]
    decide
  | markStale =>
    cases moves
    exact sound.markStale

/-- Over an open gap, outside a check, finalization is paused, the service is reported unhealthy for the gap
and the tracker is not live. -/
def Guarded (state : SelfHealingState) : Prop :=
  state.main = .idle → state.detector.gapsList ≠ [] →
    state.finalizer.pauseReasons.Nonempty ∧ .gapFill ∈ state.health.reasons ∧ state.health.healthy = false ∧
      state.supply.status ≠ .live

instance (state : SelfHealingState) : Decidable state.Guarded := inferInstanceAs (Decidable (_ → _ → _))

/-- Once a tick has found the list empty and no gap came since, finalization is resumed and the tracker has
left gap filling. -/
def Released (state : SelfHealingState) : Prop :=
  state.detector.gapsList = [] → state.settled = true →
    state.finalizer.pauseReasons = ∅ ∧ state.supply.status ≠ .gapFilling

instance (state : SelfHealingState) : Decidable state.Released := inferInstanceAs (Decidable (_ → _ → _))

theorem open_gaps_are_guarded
    (run : Run (new cap failPinCap) step (fun _ state event => state.InOrder event) events state) :
    state.Guarded ∧ state.Released := by
  have sound : Sound state :=
    Run.stateInvariant (sound_new cap failPinCap) (fun _ _ _ _ sound inOrder moves => sound.step inOrder moves) run
  constructor
  · intro isIdle queued
    have isPaused := (sound.opened queued).1
    have hasReason := sound.paired.mp isPaused
    refine ⟨⟨_, isPaused⟩, hasReason, ?_, sound.marked isIdle queued⟩
    rcases sound.reported hasReason with last | ⟨_, unhealthy⟩
    · have waits : state.health.Awaits .main := List.mem_map.mpr ⟨_, List.mem_of_getLast? last, rfl⟩
      exact absurd waits (sound.idle isIdle)
    · exact unhealthy
  · intro _ isSettled
    obtain ⟨running, left_⟩ := sound.closed (Or.inl isSettled)
    refine ⟨Finset.eq_empty_of_forall_notMem fun reason => ?_, left_⟩
    cases reason
    exact running

section Examples

private def numbered (slot : ℕ) : ChainBlock := ⟨slot, toString slot, slot - 1, toString (slot - 1)⟩

/-- A live tracker, and a gap from 11 to 14. -/
private def opening : List TaskEvent :=
  [.startupFinished, .written .startup, .setStartupTotal 1 100, .finishBootstrap ∅, .received (numbered 10),
    .received (numbered 15), .written .main, .mainResumes]

theorem open_gaps_are_guarded_opening :
    ∃ state, Run (new 10 10) step (fun _ state event => state.InOrder event) opening state ∧
      state.detector.gapsList ≠ [] ∧ state.health.healthy = false ∧ state.supply.status ≠ .live := by
  have replayed : (Run.replay step (fun _ state event => state.InOrder event) [] (new 10 10) opening).any
      (fun state => decide (state.main = .idle ∧ state.detector.gapsList ≠ [])) = true := by decide +kernel
  obtain ⟨state, ran, holds⟩ := (Option.any_eq_true _ _).mp replayed
  obtain ⟨isIdle, queued⟩ := of_decide_eq_true holds
  have run := Run.replayed ran
  obtain ⟨_, _, unhealthy, notLive⟩ := (open_gaps_are_guarded run).1 isIdle queued
  exact ⟨state, run, queued, unhealthy, notLive⟩

/-- The gap is closed by its blocks arriving late, and the tick that finds the list empty leaves the tracker
in gap filling. -/
theorem late_blocks_leave_the_tracker_in_gap_filling :
    ¬∀ (cap failPinCap : ℕ) (events : List TaskEvent) (state : SelfHealingState),
      Run (new cap failPinCap) step (fun _ _ _ => True) events state → state.Guarded ∧ state.Released := by
  intro claim
  have replayed : (Run.replay step (fun _ _ _ => True) [] (new 10 10)
      (opening ++ [.received (numbered 11), .received (numbered 12), .received (numbered 13),
        .received (numbered 14), .tick, .written .fill, .fillResumes])).any
      (fun state => decide ¬state.Released) = true := by decide +kernel
  obtain ⟨state, ran, holds⟩ := (Option.any_eq_true _ _).mp replayed
  exact of_decide_eq_true holds (claim 10 10 _ state (Run.replayed ran)).2

end Examples

end SelfHealingState

end Cloudbreak.Model.SelfHealing
