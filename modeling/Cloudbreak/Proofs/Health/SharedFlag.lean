import Mathlib.Data.Finset.Basic
import Cloudbreak.Model.Health.SharedFlag

/-! # Two writers of one flag

The value that the flag will have once every outstanding write is applied follows both services, except
when a trim ends while a reason is set, or the last reason goes during a trim: each writer then announces a
healthy node that the other one does not grant.
-/

namespace Cloudbreak.Model.Health.SharedHealth

open Cloudbreak.ToMathlib

variable {shared next : SharedHealth} {event : SharedHealthEvent}

/-- The value of the flag after all outstanding writes. -/
def settled (shared : SharedHealth) : Bool := shared.health.updates.getLastD shared.health.db.healthy

/-- A trim does not end while a reason is set, and the last reason is not removed during a trim. -/
def Apart (shared : SharedHealth) : SharedHealthEvent → Prop
  | .trimEnds => shared.health.reasons = ∅
  | .removeReason reason =>
    reason ∈ shared.health.reasons → shared.health.reasons.erase reason = ∅ → shared.trimming = false
  | _ => True

abbrev SharedRun (db : Database) :=
  Run (new db) step fun _ shared event => shared.Apart event

private theorem settled_issue (healthy trimming : Bool) : settled ⟨shared.issue healthy, trimming⟩ = healthy := by
  simp [settled, issue]

theorem verdict_of_reason {reason : HealthReason} (present : reason ∈ shared.health.reasons) :
    shared.verdict = false := by
  have unhealthy : shared.health.isHealthy = false := by
    rw [ServiceHealth.isHealthy, decide_eq_false_iff_not]
    exact Finset.ne_empty_of_mem present
  rw [verdict, unhealthy, Bool.false_and]

private theorem settled_addReason (follows : shared.settled = shared.verdict) (reason : HealthReason) :
    settled { shared with health := shared.health.addReason reason } =
      verdict { shared with health := shared.health.addReason reason } := by
  have added : reason ∈ (shared.health.addReason reason).reasons := Finset.mem_insert_self _ _
  rw [verdict_of_reason added]
  rcases Classical.em (reason ∈ shared.health.reasons) with present | absent
  · rw [verdict_of_reason present] at follows
    simpa [settled, ServiceHealth.addReason, present] using follows
  · simp [settled, ServiceHealth.addReason, absent]

/-- Removing a reason writes exactly when it was the last one. -/
theorem updates_removeReason (reason : HealthReason) :
    (shared.health.removeReason reason).updates =
      if reason ∈ shared.health.reasons ∧ shared.health.reasons.erase reason = ∅ then
        shared.health.updates ++ [true]
      else shared.health.updates := by
  simp [ServiceHealth.removeReason]

private theorem settled_removeReason_iff (follows : shared.settled = shared.verdict) (reason : HealthReason) :
    settled { shared with health := shared.health.removeReason reason } =
      verdict { shared with health := shared.health.removeReason reason } ↔ shared.Apart (.removeReason reason) := by
  have reasons : (shared.health.removeReason reason).reasons = shared.health.reasons.erase reason := rfl
  rw [Apart]
  rcases Classical.em (reason ∈ shared.health.reasons ∧ shared.health.reasons.erase reason = ∅) with last | kept
  · have value : settled { shared with health := shared.health.removeReason reason } = true := by
      rw [settled, updates_removeReason, if_pos last]
      simp
    rw [value, verdict, ServiceHealth.isHealthy, reasons, last.2]
    simp [last.1]
  · have value : settled { shared with health := shared.health.removeReason reason } = shared.settled := by
      rw [settled, updates_removeReason, if_neg kept]
      rfl
    rw [value, follows]
    refine ⟨fun _ present empty => absurd ⟨present, empty⟩ kept, fun _ => ?_⟩
    rcases Classical.em (reason ∈ shared.health.reasons) with present | absent
    · -- another reason is left on both sides
      obtain ⟨other, left⟩ := Finset.nonempty_iff_ne_empty.mpr fun empty => kept ⟨present, empty⟩
      rw [verdict_of_reason (Finset.mem_of_mem_erase left)]
      exact (@verdict_of_reason _ other left).symm
    · simp [verdict, ServiceHealth.isHealthy, reasons, Finset.erase_eq_of_notMem absent]

private theorem settled_trimEnds_iff :
    settled ⟨shared.issue true, false⟩ = verdict ⟨shared.issue true, false⟩ ↔ shared.Apart .trimEnds := by
  rw [settled_issue, verdict, Apart]
  rw [Bool.not_false, Bool.and_true, eq_comm]
  exact decide_eq_true_iff

private theorem settled_writeApplied (applied : step shared .writeApplied = some next) :
    next.settled = shared.settled ∧ next.verdict = shared.verdict := by
  rw [step, Option.map_eq_some_iff] at applied
  obtain ⟨healthy, first, rfl⟩ := applied
  obtain ⟨updates, rest⟩ := List.head?_eq_some_iff.mp first
  refine ⟨?_, rfl⟩
  simp only [settled, rest, List.tail_cons, Database.updateServiceHealth]
  cases updates <;> rfl

/-- From a state whose writes will settle on the verdict, a step keeps that exactly when it is apart. -/
theorem settled_step_iff (follows : shared.settled = shared.verdict) (moves : shared.step event = some next) :
    next.settled = next.verdict ↔ shared.Apart event := by
  cases event with
  | addReason reason =>
    obtain rfl := Option.some.inj moves
    exact ⟨fun _ => trivial, fun _ => settled_addReason follows reason⟩
  | removeReason reason =>
    obtain rfl := Option.some.inj moves
    exact settled_removeReason_iff follows reason
  | trimStarts =>
    rw [step] at moves
    split at moves
    · cases moves
    · obtain rfl := Option.some.inj moves
      refine ⟨fun _ => trivial, fun _ => ?_⟩
      rw [settled_issue, verdict, Bool.not_true, Bool.and_false]
  | trimEnds =>
    rw [step] at moves
    split at moves
    · obtain rfl := Option.some.inj moves
      exact settled_trimEnds_iff
    · cases moves
  | writeApplied =>
    obtain ⟨settles, same⟩ := settled_writeApplied moves
    exact ⟨fun _ => trivial, fun _ => by rw [settles, same, follows]⟩

private theorem settled_run {db : Database} (unhealthy : db.healthy = false) {events : List SharedHealthEvent}
    (run : SharedRun db events shared) : shared.settled = shared.verdict := by
  refine run.stateInvariant ?_ fun _ _ _ _ follows apart moves => (settled_step_iff follows moves).mpr apart
  exact unhealthy

/-- The outstanding writes can always be applied, and leave the settled value. -/
theorem exists_applied (shared : SharedHealth) :
    ∃ events last, Run shared step (fun _ _ event => event = .writeApplied) events last ∧
      last.health.updates = [] ∧ last.settled = shared.settled ∧ last.verdict = shared.verdict := by
  have partly : ∀ count, ∃ events last, Run shared step (fun _ _ event => event = .writeApplied) events last ∧
      last.health.updates = shared.health.updates.drop count ∧ last.settled = shared.settled ∧
      last.verdict = shared.verdict := by
    intro count
    induction count with
    | zero => exact ⟨[], shared, .start, rfl, rfl, rfl⟩
    | succ count ih =>
      obtain ⟨events, last, run, pending, settles, same⟩ := ih
      cases left : last.health.updates with
      | nil =>
        refine ⟨events, last, run, ?_, settles, same⟩
        rw [left] at pending
        rw [left, ← List.drop_drop (i := 1), ← pending, List.drop_nil]
      | cons healthy updates =>
        have moves : last.step .writeApplied = some
            { last with health := { last.health with
              updates := updates
              db := last.health.db.updateServiceHealth healthy last.health.db.present } } := by
          simp [step, left]
        obtain ⟨settles', same'⟩ := settled_writeApplied moves
        refine ⟨_, _, .step run rfl moves, ?_, settles'.trans settles, same'.trans same⟩
        rw [← List.drop_drop (i := 1), ← pending, left]
        rfl
  obtain ⟨events, last, run, pending, settles, same⟩ := partly shared.health.updates.length
  exact ⟨events, last, run, pending.trans List.drop_length, settles, same⟩

private theorem healthy_of_settled (applied : shared.health.updates = []) :
    shared.health.db.healthy = shared.settled := by
  rw [settled, applied]
  rfl

/-- In every run that keeps trims and reasons apart, the flag is the verdict whenever no write is
outstanding. The first step that does not keep them apart leads to a wrong flag once the writes are
applied. -/
theorem flag_respects_both_writers {db : Database} (unhealthy : db.healthy = false)
    {events : List SharedHealthEvent} (run : SharedRun db events shared) :
    (shared.health.updates = [] → (shared.health.db.healthy = true ↔
      shared.health.reasons = ∅ ∧ shared.trimming = false)) ∧
    (∀ event next, shared.step event = some next → ¬ shared.Apart event →
      ∃ writes last, Run next step (fun _ _ event => event = .writeApplied) writes last ∧
        last.health.updates = [] ∧ ¬ (last.health.db.healthy = true ↔
          last.health.reasons = ∅ ∧ last.trimming = false)) := by
  have shown : ∀ {state : SharedHealth}, (state.verdict = true ↔
      state.health.reasons = ∅ ∧ state.trimming = false) := by
    intro state
    simp [verdict, ServiceHealth.isHealthy]
  have follows := settled_run unhealthy run
  refine ⟨fun applied => ?_, fun event next moves mixed => ?_⟩
  · rw [healthy_of_settled applied, follows]
    exact shown
  · obtain ⟨writes, last, applied, none_left, settles, same⟩ := exists_applied next
    refine ⟨writes, last, applied, none_left, fun agrees => mixed ?_⟩
    rw [healthy_of_settled none_left, ← shown, ← Bool.eq_iff_iff, settles, same] at agrees
    exact (settled_step_iff follows moves).mp agrees

/-- A database in which the node is not marked healthy. -/
def unmarked : Database := ⟨false, fun _ => none⟩

instance : DecidablePred shared.Apart
  | .trimEnds => inferInstanceAs (Decidable (shared.health.reasons = ∅))
  | .removeReason _ => inferInstanceAs (Decidable (_ → _ → _ = _))
  | .addReason _ | .trimStarts | .writeApplied => inferInstanceAs (Decidable True)

/-- Startup ends, and a trim runs without a reason being set: the flag is true again. -/
theorem flag_respects_both_writers_trimming : ∃ shared : SharedHealth,
    SharedRun unmarked [.removeReason .startup, .trimStarts, .trimEnds, .writeApplied, .writeApplied, .writeApplied]
      shared ∧ shared.health.db.healthy = true := by
  obtain ⟨last, ran, applied, reasons, trimming⟩ : ∃ last, Run.replay step (fun _ shared event => Apart shared event)
      [] (new unmarked) [.removeReason .startup, .trimStarts, .trimEnds, .writeApplied, .writeApplied, .writeApplied] =
        some last ∧ last.health.updates = [] ∧ last.health.reasons = ∅ ∧ last.trimming = false :=
    ⟨_, rfl, rfl, by decide, rfl⟩
  have run := Run.replayed ran
  exact ⟨last, run, ((flag_respects_both_writers rfl run).1 applied).mpr ⟨reasons, trimming⟩⟩

/-- A gap opens during a trim; the end of the trim marks the node healthy while the gap is still open. -/
theorem trim_ends_over_a_gap :
    ¬ ∀ (db : Database) (events : List SharedHealthEvent) (shared : SharedHealth), db.healthy = false →
      Run (new db) step (fun _ _ _ => True) events shared → shared.health.updates = [] →
        (shared.health.db.healthy = true ↔ shared.health.reasons = ∅ ∧ shared.trimming = false) := by
  intro respected
  obtain ⟨last, ran, applied, flag, reasons⟩ : ∃ last, Run.replay step (fun _ _ _ => True) [] (new unmarked)
      [.removeReason .startup, .trimStarts, .addReason .gapFill, .trimEnds, .writeApplied, .writeApplied,
        .writeApplied, .writeApplied] = some last ∧ last.health.updates = [] ∧ last.health.db.healthy = true ∧
        last.health.reasons ≠ ∅ := ⟨_, rfl, rfl, rfl, by decide⟩
  exact reasons ((respected unmarked _ last rfl (Run.replayed ran) applied).mp flag).1

end Cloudbreak.Model.Health.SharedHealth
