import Mathlib

/-! # Guarded runs and their invariants

A run feeds events to a partial step function. A guard says which event may come next after the events
so far and in the current state; with it, a schedule and the conditions a result needs are part of the
run instead of hypotheses about its whole event list. An invariant may mention the events, so it can
compare the state with what they should have added up to.
-/

namespace Cloudbreak.ToMathlib

/-- The states a guarded run reaches, with the events that led there. -/
inductive Run {σ ε : Type*} (first : σ) (step : σ → ε → Option σ) (allowed : List ε → σ → ε → Prop) :
    List ε → σ → Prop
  | start : Run first step allowed [] first
  | step {events : List ε} {state next : σ} {event : ε} (before : Run first step allowed events state)
      (guard : allowed events state event) (moves : step state event = some next) :
      Run first step allowed (events ++ [event]) next

namespace Run

variable {σ ε : Type*} {first : σ} {step : σ → ε → Option σ} {allowed : List ε → σ → ε → Prop}
  {events : List ε} {state : σ}

/-- What holds at the start and is kept by every allowed event holds in every reached state. -/
theorem invariant {holds : List ε → σ → Prop} (base : holds [] first)
    (kept : ∀ events state event next, holds events state → allowed events state event →
      step state event = some next → holds (events ++ [event]) next)
    (run : Run first step allowed events state) : holds events state := by
  induction run with
  | start => exact base
  | step _ guard moves ih => exact kept _ _ _ _ ih guard moves

/-- An invariant of the state alone. -/
@[elab_as_elim]
theorem stateInvariant {holds : σ → Prop} (base : holds first)
    (kept : ∀ events state event next, holds state → allowed events state event →
      step state event = some next → holds next) (run : Run first step allowed events state) : holds state := by
  induction run with
  | start => exact base
  | step _ guard moves ih => exact kept _ _ _ _ ih guard moves

/-- A run under one guard is a run under a weaker one, where the weaker guard may use the run so far. -/
theorem mono {weaker : List ε → σ → ε → Prop}
    (weaken : ∀ events state event, Run first step allowed events state → allowed events state event →
      weaker events state event) (run : Run first step allowed events state) :
    Run first step weaker events state := by
  induction run with
  | start => exact .start
  | step before guard moves ih => exact .step ih (weaken _ _ _ before guard) moves

/-- What holds of every event may be added to the guard. -/
theorem and_forall {also : ε → Prop} (run : Run first step allowed events state) (all : ∀ event ∈ events, also event) :
    Run first step (fun events state event => allowed events state event ∧ also event) events state := by
  induction run with
  | start => exact .start
  | step _ guard moves ih =>
    rw [List.forall_mem_append] at all
    exact .step (ih all.1) ⟨guard, all.2 _ (List.mem_singleton_self _)⟩ moves

section Replay

variable [∀ events state event, Decidable (allowed events state event)]

/-- Replays events under the guard. `none` when an event is not allowed or has no step. -/
def replay (step : σ → ε → Option σ) (allowed : List ε → σ → ε → Prop)
    [∀ events state event, Decidable (allowed events state event)] (before : List ε) (state : σ) :
    List ε → Option σ
  | [] => some state
  | event :: rest =>
    if allowed before state event then
      (step state event).bind fun next => replay step allowed (before ++ [event]) next rest
    else none

/-- A replay that ends somewhere is a run to there. -/
theorem of_replay {rest : List ε} {last : σ} (before : Run first step allowed events state)
    (replayed : replay step allowed events state rest = some last) :
    Run first step allowed (events ++ rest) last := by
  induction rest generalizing events state with
  | nil =>
    cases replayed
    rwa [List.append_nil]
  | cons event rest ih =>
    rw [replay] at replayed
    split at replayed
    · next guard =>
      obtain ⟨next, moves, ran⟩ := Option.bind_eq_some_iff.mp replayed
      have run := ih (.step before guard moves) ran
      rwa [List.append_assoc] at run
    · contradiction

/-- A replay from the start is a run. -/
theorem replayed {last : σ} (ran : replay step allowed [] first events = some last) :
    Run first step allowed events last := by
  have run := of_replay .start ran
  rwa [List.nil_append] at run

end Replay

end Run

end Cloudbreak.ToMathlib
