import Cloudbreak.Model.Snapshot.TempVersions
import Cloudbreak.ToMathlib.Run

/-! # Which failed inserts the handler reports

Every insert joined after the channel is closed is looked at, and the first failure is returned. One joined
inside the receive loop is not: the handler then returns success although a batch is missing, unless a later
failure is reported in its place.
-/

namespace Cloudbreak.Model.Snapshot

open Cloudbreak.ToMathlib

namespace VersionsHandler

variable {handler next : VersionsHandler} {event : HandlerEvent}

/-- All that was received is inserted. -/
structure AllInserted (handler : VersionsHandler) : Prop where
  joined : handler.joinSet = []
  flushed : handler.buffered = []
  succeeded : ∀ task ∈ handler.joinedInLoop ++ handler.joinedAfter, task.outcome = .inserted

/-- What the phase says about the inserts joined after the loop. -/
def Sound (handler : VersionsHandler) : Prop :=
  match handler.phase with
  | .returned (.ok ()) =>
    handler.joinSet = [] ∧ handler.buffered = [] ∧ ∀ task ∈ handler.joinedAfter, task.outcome = .inserted
  | .returned (.error _) => ∃ task ∈ handler.joinedAfter, task.outcome ≠ .inserted
  | _ => ∀ task ∈ handler.joinedAfter, task.outcome = .inserted

private theorem sound_receive (sound : handler.Sound) (receiving : handler.phase = .receiving)
    (chunk : List SnapshotAccountVersion) : (handler.receive chunk).Sound := by
  rw [Sound, receiving] at sound
  unfold receive
  dsimp only
  split
  · split
    · exact sound
    · exact sound
  · rw [Sound, receiving]
    exact sound

/-- A task joined after the loop ends the run as soon as it has failed. -/
theorem sound_joinAfter (sound : ∀ task ∈ handler.joinedAfter, task.outcome = .inserted) (task : Insert)
    (joinSet : List InsertTask) :
    ({ handler with
      joinSet
      joinedAfter := handler.joinedAfter ++ [task]
      phase :=
        match task.outcome.result with
        | .ok () => .draining
        | .error error => .returned (.error error) } : VersionsHandler).Sound := by
  have here : task ∈ handler.joinedAfter ++ [task] := List.mem_append_right _ (List.mem_singleton_self _)
  cases outcome : task.outcome with
  | inserted =>
    intro other member
    rcases List.mem_append.mp member with old | new
    · exact sound other old
    · rw [List.mem_singleton.mp new, outcome]
  | failed error => exact ⟨task, here, by rw [outcome]; exact Outcome.noConfusion⟩
  | joinError error => exact ⟨task, here, by rw [outcome]; exact Outcome.noConfusion⟩

private theorem sound_joinNext (sound : handler.Sound) {index : ℕ} {task : Insert}
    (moves : handler.joinNext index task = some next) : next.Sound := by
  unfold joinNext at moves
  unfold Sound at sound
  cases phase : handler.phase with
  | receiving => rw [phase] at moves; contradiction
  | returned result => rw [phase] at moves; contradiction
  | full =>
    rw [phase] at moves sound
    cases moves
    exact sound
  | draining =>
    rw [phase] at moves sound
    cases moves
    exact sound_joinAfter sound task (handler.joinSet.eraseIdx index)

private theorem sound_insertRest (sound : ∀ task ∈ handler.joinedAfter, task.outcome = .inserted)
    (joined : handler.joinSet = []) (outcome : Outcome) :
    ({ handler with
      buffered := []
      joinedAfter := handler.joinedAfter ++ [⟨handler.buffered, outcome⟩]
      phase := .returned outcome.result } : VersionsHandler).Sound := by
  have here : (⟨handler.buffered, outcome⟩ : Insert) ∈ handler.joinedAfter ++ [⟨handler.buffered, outcome⟩] :=
    List.mem_append_right _ (List.mem_singleton_self _)
  cases outcome with
  | inserted =>
    refine ⟨joined, rfl, fun other member => ?_⟩
    rcases List.mem_append.mp member with old | new
    · exact sound other old
    · rw [List.mem_singleton.mp new]
  | failed error => exact ⟨_, here, Outcome.noConfusion⟩
  | joinError error => exact ⟨_, here, Outcome.noConfusion⟩

/-- A completion changes nothing the result depends on. -/
theorem sound_completes (sound : handler.Sound) {index : ℕ} {outcome : Outcome}
    (moves : handler.step (.completes index outcome) = some next) : next.Sound := by
  rw [step] at moves
  cases found : handler.joinSet[index]? with
  | none => rw [found] at moves; contradiction
  | some task =>
    obtain ⟨batch, known⟩ := task
    rw [found] at moves
    cases known with
    | some _ => contradiction
    | none =>
      cases moves
      unfold Sound at sound ⊢
      dsimp only
      cases phase : handler.phase with
      | returned result =>
        rw [phase] at sound
        cases result with
        | error error => exact sound
        | ok _ =>
          rw [sound.1] at found
          contradiction
      | receiving => rw [phase] at sound; exact sound
      | full => rw [phase] at sound; exact sound
      | draining => rw [phase] at sound; exact sound

private theorem sound_step (sound : handler.Sound) (moves : handler.step event = some next) : next.Sound := by
  cases event with
  | completes index outcome => exact sound_completes sound moves
  | receive chunk =>
    rw [step] at moves
    cases phase : handler.phase with
    | receiving =>
      rw [phase] at moves
      cases moves
      exact sound_receive sound phase chunk
    | full => rw [phase] at moves; contradiction
    | draining => rw [phase] at moves; contradiction
    | returned result => rw [phase] at moves; contradiction
  | joinNext index =>
    rw [step] at moves
    cases found : handler.joinSet[index]? with
    | none => rw [found] at moves; contradiction
    | some task =>
      obtain ⟨batch, known⟩ := task
      rw [found] at moves
      cases known with
      | none => contradiction
      | some outcome => exact sound_joinNext sound moves
  | close =>
    rw [step] at moves
    unfold Sound at sound
    cases phase : handler.phase with
    | receiving =>
      rw [phase] at moves sound
      cases moves
      exact sound
    | full => rw [phase] at moves; contradiction
    | draining => rw [phase] at moves; contradiction
    | returned result => rw [phase] at moves; contradiction
  | insertRest outcome =>
    rw [step] at moves
    unfold Sound at sound
    cases phase : handler.phase with
    | draining =>
      rw [phase] at moves sound
      dsimp only at moves
      split at moves
      · next rest =>
        cases moves
        exact sound_insertRest sound rest.1 outcome
      · contradiction
    | receiving => rw [phase] at moves; contradiction
    | full => rw [phase] at moves; contradiction
    | returned result => rw [phase] at moves; contradiction
  | done =>
    rw [step] at moves
    unfold Sound at sound
    cases phase : handler.phase with
    | draining =>
      rw [phase] at moves sound
      dsimp only at moves
      split at moves
      · next nothing =>
        cases moves
        exact ⟨nothing.1, nothing.2, sound⟩
      · contradiction
    | receiving => rw [phase] at moves; contradiction
    | full => rw [phase] at moves; contradiction
    | returned result => rw [phase] at moves; contradiction

private theorem sound_run {events : List HandlerEvent}
    (run : Run new VersionsHandler.step (fun _ _ _ => True) events handler) : handler.Sound := by
  refine run.stateInvariant ?_ fun events state event next sound _ moves => sound_step sound moves
  intro task member
  contradiction

/-- A success means that all inserts succeeded exactly when none joined inside the loop failed, or a later
failure is reported. -/
theorem success_reports_all_iff {events : List HandlerEvent} {result : Except String Unit}
    (run : Run new VersionsHandler.step (fun _ _ _ => True) events handler)
    (returned : handler.phase = .returned result) :
    (result = .ok () → handler.AllInserted) ↔
      (∀ task ∈ handler.joinedInLoop, task.outcome = .inserted) ∨
        ∃ task ∈ handler.joinedAfter, task.outcome ≠ .inserted := by
  have sound := sound_run run
  rw [Sound, returned] at sound
  cases result with
  | error error => exact iff_of_true (fun success => by contradiction) (Or.inr sound)
  | ok _ =>
    obtain ⟨joined, flushed, after⟩ := sound
    constructor
    · intro all
      exact Or.inl fun task member => (all rfl).succeeded task (List.mem_append_left _ member)
    · rintro (inLoop | ⟨task, member, failed⟩) _
      · refine ⟨joined, flushed, fun task member => ?_⟩
        rcases List.mem_append.mp member with early | late
        · exact inLoop task early
        · exact after task late
      · exact absurd (after task member) failed

/-- The handler has returned success. -/
def reportsSuccess (handler : VersionsHandler) : Bool :=
  match handler.phase with
  | .returned (.ok ()) => true
  | _ => false

private theorem phase_of_reportsSuccess (success : handler.reportsSuccess = true) :
    handler.phase = .returned (.ok ()) := by
  unfold reportsSuccess at success
  cases phase : handler.phase with
  | returned result =>
    cases result with
    | ok _ => rfl
    | error error => rw [phase] at success; contradiction
  | receiving => rw [phase] at success; contradiction
  | full => rw [phase] at success; contradiction
  | draining => rw [phase] at success; contradiction

/-- A chunk that fills a batch. -/
def fullChunk : List SnapshotAccountVersion := List.replicate 1000 ⟨7, 1, 3⟩

/-- Eleven full batches, the first of which has a given outcome before the eleventh is spawned. -/
def elevenBatches (first : Outcome) : List HandlerEvent :=
  List.replicate 11 (HandlerEvent.receive fullChunk) ++
    [HandlerEvent.completes 0 first, HandlerEvent.joinNext 0, HandlerEvent.close] ++
    (List.replicate 10 [HandlerEvent.completes 0 .inserted, HandlerEvent.joinNext 0]).flatten ++ [HandlerEvent.done]

theorem success_reports_all_elevenBatches :
    ∃ handler, Run new VersionsHandler.step (fun _ _ _ => True) (elevenBatches .inserted) handler ∧
      handler.joinedInLoop.length = 1 ∧ handler.AllInserted := by
  have replayed : (Run.replay VersionsHandler.step (fun _ _ _ => True) [] new (elevenBatches .inserted)).any
      (fun handler => handler.reportsSuccess && (decide (handler.joinedInLoop.length = 1) &&
        handler.joinedInLoop.all fun task => decide (task.outcome = .inserted))) = true := by decide +kernel
  obtain ⟨handler, ran, ends⟩ := (Option.any_eq_true _ _).mp replayed
  obtain ⟨success, ends⟩ := Bool.and_eq_true_iff.mp ends
  obtain ⟨one, inserted⟩ := Bool.and_eq_true_iff.mp ends
  have run := Run.replayed ran
  have reports := success_reports_all_iff run (phase_of_reportsSuccess success)
  refine ⟨handler, run, of_decide_eq_true one, reports.mpr (Or.inl fun task member => ?_) rfl⟩
  exact of_decide_eq_true (List.all_eq_true.mp inserted task member)

/-- A batch that fails while the loop waits for room is not reported. -/
theorem failed_batch_is_not_reported :
    ¬ ∀ (events : List HandlerEvent) (handler : VersionsHandler),
      Run new VersionsHandler.step (fun _ _ _ => True) events handler → handler.phase = .returned (.ok ()) →
        ∀ task ∈ handler.joinedInLoop ++ handler.joinedAfter, task.outcome = .inserted := by
  intro reported
  have replayed : (Run.replay VersionsHandler.step (fun _ _ _ => True) [] new
      (elevenBatches (.failed "deadlock detected"))).any
      (fun handler => handler.reportsSuccess &&
        handler.joinedInLoop.any fun task => decide (task.outcome ≠ .inserted)) = true := by decide +kernel
  obtain ⟨handler, ran, ends⟩ := (Option.any_eq_true _ _).mp replayed
  obtain ⟨success, failed⟩ := Bool.and_eq_true_iff.mp ends
  obtain ⟨task, member, missing⟩ := List.any_eq_true.mp failed
  have all := reported _ handler (Run.replayed ran) (phase_of_reportsSuccess success)
  exact of_decide_eq_true missing (all task (List.mem_append_left _ member))

end VersionsHandler

end Cloudbreak.Model.Snapshot
