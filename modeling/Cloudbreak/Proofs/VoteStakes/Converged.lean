import Cloudbreak.Model.VoteStakes.Recomputer
import Cloudbreak.ToMathlib.Run

/-! # When the epoch stakes have converged

The counters of the recomputer describe the recomputes of its epoch: the last ones had one total, as often as the
stable polls say. Once it has converged the total has not moved, and its recomputes are a heartbeat apart.
-/

namespace Cloudbreak.Model.VoteStakes

open Cloudbreak.ToMathlib

variable {system next : Recomputing} {log : List Recompute} {recompute : Recompute}

/-- The last recomputes had one total, and the rewards are done as far as they can be read: the last reading failed, or
it was inactive after an active one. -/
def Settled (log : List Recompute) : Prop :=
  (∃ rest total, log.map Recompute.total = rest ++ List.replicate (stablePollsRequired + 1) total) ∧
    ∃ earlier last, log = earlier ++ [last] ∧
      (last.rewards = none ∨ last.rewards = some false ∧ ∃ seen ∈ earlier, seen.rewards = some true)

/-- The recomputes up to the one the recomputer converged with. -/
def Converges (log : List Recompute) : Prop := Settled log ∨ maxRecomputesPerEpoch ≤ log.length

/-- Since then the total is the same, and a recompute comes a heartbeat after the one before. -/
def Rested (log : List Recompute) : Prop :=
  ∃ before last settled, log = before ++ last :: settled ∧ Converges (before ++ [last]) ∧
    (∀ recompute ∈ settled, recompute.total = last.total) ∧
    (last :: settled).IsChain fun earlier later => earlier.time + heartbeatInterval ≤ later.time

/-- A recompute on a heartbeat that has not moved the total. -/
theorem Rested.concat (rested : Rested log)
    (same : ∀ final, log.getLast? = some final → final.total = recompute.total)
    (waited : ∀ final, log.getLast? = some final → final.time + heartbeatInterval ≤ recompute.time) :
    Rested (log ++ [recompute]) := by
  obtain ⟨before, last, settled, rfl, converges, unmoved, spaced⟩ := rested
  have isFinal : (before ++ last :: settled).getLast? = some (settled.getLast?.getD last) := by
    rw [List.getLast?_append, List.getLast?_cons, Option.some_or]
  have finalTotal : (settled.getLast?.getD last).total = last.total := by
    cases isLast : settled.getLast? with
    | none => rfl
    | some final => exact unmoved final (List.mem_of_getLast? isLast)
  refine ⟨before, last, settled ++ [recompute], by rw [List.append_assoc, List.cons_append], converges, ?_, ?_⟩
  · intro other member
    rcases List.mem_append.mp member with old | isNew
    · exact unmoved other old
    · rw [List.mem_singleton.mp isNew, ← same _ isFinal, finalTotal]
  · rw [← List.cons_append, List.isChain_append]
    refine ⟨spaced, List.isChain_singleton _, fun earlier isLast later isNew => ?_⟩
    cases isNew
    rw [List.getLast?_cons] at isLast
    cases isLast
    exact waited _ isFinal

/-- The recompute that converges. -/
theorem Rested.of_converges (converges : Converges (log ++ [recompute])) : Rested (log ++ [recompute]) :=
  ⟨log, recompute, [], rfl, converges, fun _ member => absurd member List.not_mem_nil, List.isChain_singleton _⟩

namespace Recomputing

structure Tracks (system : Recomputing) : Prop where
  empty : system.recomputer.prevTotal = none → system.log = []
  stable : ∀ total, system.recomputer.prevTotal = some total → ∃ rest,
    system.log.map Recompute.total = rest ++ List.replicate (system.recomputer.stablePolls + 1) total
  seen : system.recomputer.seenDistributing = true → ∃ seen ∈ system.log, seen.rewards = some true
  counted : system.recomputer.recomputes ≤ system.log.length
  last : system.recomputer.lastRecompute = system.log.getLast?.map Recompute.time
  bounded : system.recomputer.converged = false → system.recomputer.recomputes < maxRecomputesPerEpoch
  rested : system.recomputer.converged = true → Rested system.log

theorem Tracks.fresh (workingEpoch : Option ℕ) (now : ℕ) :
    Tracks ⟨{ EpochStakesRecomputer.new with workingEpoch }, now, []⟩ where
  empty := fun _ => rfl
  stable := fun _ none => absurd none.symm (Option.some_ne_none _)
  seen := fun other => Bool.noConfusion other
  counted := Nat.le_refl _
  last := rfl
  bounded := fun _ => (by decide : 0 < maxRecomputesPerEpoch)
  rested := fun other => Bool.noConfusion other

theorem Tracks.later (tracks : system.Tracks) (now : ℕ) : Tracks { system with now } :=
  ⟨tracks.empty, tracks.stable, tracks.seen, tracks.counted, tracks.last, tracks.bounded, tracks.rested⟩

theorem Tracks.enterEpoch (tracks : system.Tracks) (epoch : ℕ) : (system.enterEpoch epoch).Tracks := by
  rw [Recomputing.enterEpoch]
  split
  · exact tracks
  · exact .fresh _ _

/-- The last recomputes have the same total, as often as the stable polls say. -/
theorem Tracks.stable_concat (tracks : system.Tracks) (recompute : Recompute) : ∃ rest,
    (system.log ++ [recompute]).map Recompute.total =
      rest ++ List.replicate (system.recomputer.stablePollsAfter recompute.total + 1) recompute.total := by
  rw [EpochStakesRecomputer.stablePollsAfter, List.map_append, List.map_singleton]
  split
  · next same =>
    obtain ⟨rest, totals⟩ := tracks.stable _ same
    exact ⟨rest, by rw [totals, List.append_assoc, ← List.replicate_succ']⟩
  · exact ⟨system.log.map Recompute.total, rfl⟩

/-- A stable total with the rewards done. -/
theorem Tracks.settled (tracks : system.Tracks)
    (done : system.recomputer.rewardsDone recompute.rewards = true)
    (stable : stablePollsRequired ≤ system.recomputer.stablePollsAfter recompute.total) :
    Settled (system.log ++ [recompute]) := by
  obtain ⟨rest, totals⟩ := tracks.stable_concat recompute
  obtain ⟨extra, isExtra⟩ := Nat.exists_eq_add_of_le' stable
  refine ⟨⟨rest ++ List.replicate extra recompute.total, recompute.total, ?_⟩, system.log, recompute, rfl, ?_⟩
  · rw [totals, isExtra, Nat.add_assoc, List.append_assoc, ← List.replicate_add]
  · cases reading : recompute.rewards with
    | none => exact Or.inl rfl
    | some active =>
      rw [reading, EpochStakesRecomputer.rewardsDone, Bool.and_eq_true, Bool.or_eq_true, Bool.not_eq_true'] at done
      obtain ⟨seen, inactive⟩ := done
      refine Or.inr ⟨congrArg some inactive, tracks.seen (seen.resolve_right ?_)⟩
      rw [inactive]
      exact Bool.false_ne_true

/-- The bookkeeping apart from the refinement. -/
theorem recomputed_frame (recomputer : EpochStakesRecomputer) (recompute : Recompute) :
    (recomputer.recomputed recompute).prevTotal = some recompute.total ∧
    (recomputer.recomputed recompute).stablePolls = recomputer.stablePollsAfter recompute.total ∧
    (recomputer.recomputed recompute).seenDistributing =
      (recomputer.seenDistributing || decide (recompute.rewards = some true)) ∧
    (recomputer.recomputed recompute).lastRecompute = some recompute.time ∧
    (recomputer.recomputed recompute).recomputes ≤ recomputer.recomputes + 1 := by
  rw [EpochStakesRecomputer.recomputed]
  split
  · split
    · exact ⟨rfl, rfl, rfl, rfl, Nat.zero_le _⟩
    · exact ⟨rfl, rfl, rfl, rfl, Nat.le_refl _⟩
  · exact ⟨rfl, rfl, rfl, rfl, Nat.le_refl _⟩

/-- A recompute leaves the recomputer converged when it was and the total has not moved, or when it converges now. -/
theorem recomputed_converged {recomputer : EpochStakesRecomputer}
    (converged : (recomputer.recomputed recompute).converged = true) :
    recomputer.converged = true ∧ recomputer.prevTotal = some recompute.total ∨
      (recomputer.rewardsDone recompute.rewards = true ∧
        stablePollsRequired ≤ recomputer.stablePollsAfter recompute.total ∨
      maxRecomputesPerEpoch ≤ recomputer.recomputes + 1) := by
  rw [EpochStakesRecomputer.recomputed] at converged
  split at converged
  · next was =>
    split at converged
    · exact Bool.noConfusion converged
    · next unmoved =>
      rw [EpochStakesRecomputer.stablePollsAfter] at unmoved
      split at unmoved
      · next same => exact Or.inl ⟨was, same⟩
      · exact absurd rfl unmoved
  · change (_ || _) = true at converged
    rw [Bool.or_eq_true, Bool.and_eq_true, decide_eq_true_iff, decide_eq_true_iff] at converged
    exact Or.inr converged

private theorem recomputed_bounded {recomputer : EpochStakesRecomputer}
    (refining : (recomputer.recomputed recompute).converged = false) :
    (recomputer.recomputed recompute).recomputes < maxRecomputesPerEpoch := by
  rw [EpochStakesRecomputer.recomputed] at refining ⊢
  split at refining
  · next was =>
    rw [if_pos was]
    split at refining
    · next moved =>
      rw [if_pos moved]
      exact (by decide : 0 < maxRecomputesPerEpoch)
    · exact Bool.noConfusion (was.symm.trans refining)
  · next was =>
    rw [if_neg was]
    change (_ || _) = false at refining
    rw [Bool.or_eq_false_iff, decide_eq_false_iff_not, not_le] at refining
    exact refining.2

private theorem Tracks.last_total (tracks : system.Tracks) {total : ℕ}
    (isTotal : system.recomputer.prevTotal = some total)
    {final : Recompute} (isFinal : system.log.getLast? = some final) : final.total = total := by
  obtain ⟨rest, totals⟩ := tracks.stable total isTotal
  have final_total : (system.log.map Recompute.total).getLast? = some total := by
    rw [totals, List.replicate_succ', ← List.append_assoc, List.getLast?_concat]
  rw [List.getLast?_map, isFinal] at final_total
  exact Option.some.inj final_total

theorem Tracks.recomputed (tracks : system.Tracks) (awake : system.recomputer.rests system.now = false)
    (later : system.now ≤ recompute.time) :
    Tracks ⟨system.recomputer.recomputed recompute, recompute.time, system.log ++ [recompute]⟩ := by
  obtain ⟨prevTotal, stablePolls, seen, lastRecompute, recomputes⟩ :=
    recomputed_frame system.recomputer recompute
  refine ⟨fun none => ?_, fun total isTotal => ?_, fun hasSeen => ?_, ?_, ?_, recomputed_bounded, fun converged => ?_⟩
  · rw [prevTotal] at none
    contradiction
  · rw [prevTotal] at isTotal
    cases isTotal
    rw [stablePolls]
    exact tracks.stable_concat recompute
  · rw [seen, Bool.or_eq_true, decide_eq_true_iff] at hasSeen
    rcases hasSeen with before | isNow
    · obtain ⟨entry, member, active⟩ := tracks.seen before
      exact ⟨entry, List.mem_append_left _ member, active⟩
    · exact ⟨recompute, List.mem_append_right _ (List.mem_singleton.mpr rfl), isNow⟩
  · rw [List.length_append, List.length_singleton]
    exact recomputes.trans (Nat.succ_le_succ tracks.counted)
  · rw [lastRecompute, List.getLast?_concat]
    rfl
  · rcases recomputed_converged converged with ⟨was, same⟩ | ⟨done, stable⟩ | exhausted
    · refine (tracks.rested was).concat (fun final isFinal => tracks.last_total same isFinal) fun final isFinal => ?_
      rw [EpochStakesRecomputer.rests, was, tracks.last, isFinal, Bool.true_and] at awake
      have waited : ¬ system.now - final.time < heartbeatInterval := of_decide_eq_false awake
      have positive : 0 < heartbeatInterval := by decide
      omega
    · exact .of_converges (Or.inl (tracks.settled done stable))
    · refine .of_converges (Or.inr ?_)
      rw [List.length_append, List.length_singleton]
      exact exhausted.trans (Nat.succ_le_succ tracks.counted)

theorem Tracks.refresh (tracks : system.Tracks) (reading : PollReading) : (system.refresh reading).Tracks := by
  rw [Recomputing.refresh]
  split
  · exact tracks
  · next awake =>
    split
    · exact tracks.later _
    · exact tracks.recomputed (Bool.eq_false_iff.mpr awake) (Nat.le_add_right _ _)

theorem Tracks.poll (tracks : system.Tracks) (reading : PollReading) : (system.poll reading).Tracks := by
  rw [Recomputing.poll]
  have awake := tracks.later (system.now + pollInterval + reading.elapsed)
  split
  · exact awake
  · split
    · exact awake
    · exact (awake.enterEpoch _).refresh reading

/-- When the recomputer has converged, the recomputes of its epoch came to a stable total with the rewards done, or
were as many as the fast phase allows; since then the total has not moved and the recomputes are a heartbeat apart. The
fast phase is never longer than that. -/
theorem converged_totals_are_stable {readings : List PollReading}
    (run : Run new step (fun _ _ _ => True) readings system) :
    (system.recomputer.converged = true → Rested system.log) ∧
      (system.recomputer.converged = false → system.recomputer.recomputes < maxRecomputesPerEpoch) := by
  have tracks : system.Tracks := by
    refine run.stateInvariant (.fresh none 0) ?_
    intro _ _ reading _ tracks _ moves
    cases moves
    exact tracks.poll reading
  exact ⟨tracks.rested, tracks.bounded⟩

/-- Four recomputes of one total around the end of the distribution, a turn that rests and one on the heartbeat. -/
private def steadyStakes : List PollReading :=
  [⟨0, true, some 432000, some 100, 1, some true⟩, ⟨0, true, some 432100, some 100, 1, some true⟩,
    ⟨0, true, some 432200, some 100, 1, some false⟩, ⟨0, true, some 432300, some 100, 1, some false⟩,
    ⟨0, true, some 432400, some 200, 1, some false⟩, ⟨600, true, some 433000, some 100, 1, some false⟩]

theorem converged_on_steady_stakes : ∃ system : Recomputing,
    Run new step (fun _ _ _ => True) steadyStakes system ∧ system.log.map Recompute.total = List.replicate 5 100 ∧
      Rested system.log := by
  have replays : (Run.replay step (fun _ _ _ => True) [] new steadyStakes).any
      (fun system => system.recomputer.converged &&
        decide (system.log.map Recompute.total = List.replicate 5 100)) = true := by
    decide +kernel
  obtain ⟨system, ran, ended⟩ := Option.any_eq_true _ _ |>.mp replays
  rw [Bool.and_eq_true, decide_eq_true_iff] at ended
  have run := Run.replayed ran
  exact ⟨system, run, ended.2, (converged_totals_are_stable run).1 ended.1⟩

end Recomputing

end Cloudbreak.Model.VoteStakes
