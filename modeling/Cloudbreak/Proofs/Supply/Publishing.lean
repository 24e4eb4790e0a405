import Cloudbreak.Model.Supply.Concurrent

/-! # Rows are published only while live

Whatever takes the state mutex moves the tracker one way: the status along its few edges, the slot never
down, and a row only together with the live status. A run of interleaved phases adds nothing to that.
-/

namespace Cloudbreak.Model.Supply

open Cloudbreak.ToMathlib
open NonCirculating (StakeBlock)

/-- The edges of the status. -/
inductive SupplyStatus.Moves : SupplyStatus → SupplyStatus → Prop where
  | stays (status : SupplyStatus) : Moves status status
  | finishesBootstrap : Moves .bootstrapping .live
  | marksGap : Moves .live .gapFilling
  | finishesGap : Moves .gapFilling .live
  | marksStale {status : SupplyStatus} (tracking : status = .live ∨ status = .gapFilling) : Moves status .stale

theorem SupplyStatus.Moves.of_eq {status next : SupplyStatus} (same : next = status) : status.Moves next :=
  same ▸ .stays status

/-- Stale is never left. -/
theorem SupplyStatus.Moves.stale {next : SupplyStatus} (moves : SupplyStatus.Moves .stale next) : next = .stale := by
  cases moves with
  | stays => rfl
  | marksStale => rfl

/-- What one hold of the mutex may do. -/
structure SupplyState.Advances (state next : SupplyState) (commit : Option SupplyCommit) : Prop where
  status : state.status.Moves next.status
  slot : state.slot ≤ next.slot
  published : ∀ row ∈ commit, next.status = .live ∧ row = next.commit

namespace SupplyState

variable {state next : SupplyState} {slot : ℕ}

theorem Advances.of_same (status : next.status = state.status) (slot : next.slot = state.slot) :
    state.Advances next none :=
  ⟨.of_eq status, slot.ge, fun _ row => absurd row (Option.not_mem_none _)⟩

private theorem setStartupTotal_advances (state : SupplyState) (slot capitalization : ℕ) :
    state.Advances (state.setStartupTotal slot capitalization) none := by
  unfold setStartupTotal
  split
  · exact .of_same rfl rfl
  · exact .of_same rfl rfl

private theorem markBootstrapFailed_advances (state : SupplyState) :
    state.Advances state.markBootstrapFailed.1 none := by
  unfold markBootstrapFailed
  split
  · exact .of_same rfl rfl
  · exact .of_same rfl rfl

private theorem finishBootstrap_advances {startupBalances : HashMap Pubkey ℕ} {commit : SupplyCommit}
    (finished : state.finishBootstrap startupBalances = some (next, commit)) : state.Advances next (some commit) := by
  unfold finishBootstrap at finished
  split at finished
  · contradiction
  · next ready =>
    obtain ⟨_, _, flipped⟩ := Option.bind_eq_some_iff.mp finished
    cases flipped
    have booting : state.status = .bootstrapping := by
      by_contra other
      exact ready (Or.inl other)
    refine ⟨?_, le_max_left _ _, fun row present => ?_⟩
    · rw [booting]
      exact .finishesBootstrap
    · cases present
      exact ⟨rfl, rfl⟩

private theorem markGap_advances (state : SupplyState) : state.Advances state.markGap.1 none := by
  unfold markGap
  split
  · exact .of_same rfl rfl
  · next live =>
    refine ⟨?_, le_rfl, fun _ row => absurd row (Option.not_mem_none _)⟩
    rw [not_not.mp live]
    exact .marksGap

private theorem finishGap_advances (state : SupplyState) : state.Advances state.finishGap none := by
  unfold finishGap
  split
  · next filling =>
    refine ⟨?_, le_rfl, fun _ row => absurd row (Option.not_mem_none _)⟩
    rw [filling]
    exact .finishesGap
  · exact .of_same rfl rfl

theorem markStale_advances (state : SupplyState) : state.Advances state.markStale.1 none := by
  unfold markStale
  split
  · next tracking => exact ⟨.marksStale tracking, le_rfl, fun _ row => absurd row (Option.not_mem_none _)⟩
  · exact .of_same rfl rfl

private theorem sweepIfDue_advances (swept : state.sweepIfDue slot = some next) : state.Advances next none := by
  unfold sweepIfDue at swept
  split at swept
  · obtain ⟨_, _, swept⟩ := Option.bind_eq_some_iff.mp swept
    cases swept
    exact .of_same rfl rfl
  · cases swept
    exact .of_same rfl rfl

private theorem touch_same (slot : ℕ) (state : SupplyState) (p : Pending) :
    (touch slot state p).status = state.status ∧ (touch slot state p).slot = state.slot := by
  unfold touch
  dsimp only
  split
  · exact ⟨rfl, rfl⟩
  · exact ⟨rfl, rfl⟩

private theorem probeOne_same (slot : ℕ) (isRepaired : Bool) (stake : StakeBlock) (probed : Probed) (p : Pending) :
    (probeOne slot isRepaired stake probed p).state.status = probed.state.status ∧
      (probeOne slot isRepaired stake probed p).state.slot = probed.state.slot := by
  unfold probeOne
  dsimp only
  split
  · exact ⟨rfl, rfl⟩
  · split
    · exact ⟨rfl, rfl⟩
    · split
      · exact ⟨rfl, rfl⟩
      · exact ⟨rfl, rfl⟩

private theorem probeBlock_advances (state : SupplyState) (slot : ℕ) (isRepaired : Bool) (pending : List Pending)
    (stake : StakeBlock) : state.Advances (state.probeBlock slot isRepaired pending stake).1 none := by
  have touches : ∀ (pending : List Pending) (state : SupplyState),
      (pending.foldl (touch slot) state).status = state.status ∧
        (pending.foldl (touch slot) state).slot = state.slot := by
    intro pending
    induction pending with
    | nil => exact fun _ => ⟨rfl, rfl⟩
    | cons p rest ih =>
      intro state
      obtain ⟨status, height⟩ := ih (touch slot state p)
      have first := touch_same slot state p
      exact ⟨status.trans first.1, height.trans first.2⟩
  have probes : ∀ (pending : List Pending) (probed : Probed),
      (pending.foldl (probeOne slot isRepaired stake) probed).state.status = probed.state.status ∧
        (pending.foldl (probeOne slot isRepaired stake) probed).state.slot = probed.state.slot := by
    intro pending
    induction pending with
    | nil => exact fun _ => ⟨rfl, rfl⟩
    | cons p rest ih =>
      intro probed
      obtain ⟨status, height⟩ := ih (probeOne slot isRepaired stake probed p)
      have first := probeOne_same slot isRepaired stake probed p
      exact ⟨status.trans first.1, height.trans first.2⟩
  unfold probeBlock
  split
  · exact .of_same (touches pending state).1 (touches pending state).2
  · exact .of_same rfl rfl
  · split
    · exact .of_same rfl rfl
    · exact .of_same (probes pending _).1 (probes pending _).2
  · split
    · exact .of_same rfl rfl
    · exact .of_same (probes pending _).1 (probes pending _).2

private theorem resolveMisses_same (slot : ℕ) (prev : Pubkey → Option PrevRow) (misses : List Pending)
    (probed : Probed) :
    (misses.foldl (resolveMiss slot prev) probed).state.status = probed.state.status ∧
      (misses.foldl (resolveMiss slot prev) probed).state.slot = probed.state.slot := by
  induction misses generalizing probed with
  | nil => exact ⟨rfl, rfl⟩
  | cons p rest ih => exact ih (resolveMiss slot prev probed p)

private theorem commitBlock_advances (state : SupplyState) (slot : ℕ) (blockDelta : ℤ) :
    state.Advances (state.commitBlock slot blockDelta).1 (state.commitBlock slot blockDelta).2 := by
  unfold commitBlock
  dsimp only
  split
  · exact ⟨.stays _, le_max_left _ _, fun _ row => absurd row (Option.not_mem_none _)⟩
  · split
    · exact ⟨.stays _, le_max_left _ _, fun _ row => absurd row (Option.not_mem_none _)⟩
    · exact ⟨.stays _, le_max_left _ _, fun _ row => absurd row (Option.not_mem_none _)⟩
    · exact ⟨.stays _, le_max_left _ _, fun _ row => absurd row (Option.not_mem_none _)⟩
    · next live =>
      refine ⟨.stays _, le_max_left _ _, fun row present => ?_⟩
      cases present
      exact ⟨live, rfl⟩

end SupplyState

open SupplyState

/-- Each phase of a block is one hold of the mutex. -/
theorem BlockPhase.step_advances {state next : SupplyState} {slot : ℕ} {isRepaired : Bool} {phase after : BlockPhase}
    {step : BlockStep} {commit : Option SupplyCommit}
    (moves : phase.step state slot isRepaired step = some (next, after, commit)) : state.Advances next commit := by
  cases phase with
  | waiting pending stake =>
    have probed := probeBlock_advances state slot isRepaired pending stake
    cases step <;> try contradiction
    rw [BlockPhase.step] at moves
    split at moves
    · next same =>
      rw [same] at probed
      split at moves <;> cases moves <;> exact probed
    · next same =>
      rw [same] at probed
      cases moves
      exact probed
  | reading delta touched misses retried =>
    cases step <;> try (cases retried <;> contradiction)
    · cases retried with
      | false =>
        cases moves
        exact .of_same rfl rfl
      | true =>
        cases moves
        exact markStale_advances state
    · next prev =>
      have resolved := resolveMisses_same slot prev misses ⟨state, delta, touched, []⟩
      cases retried with
      | false =>
        cases moves
        exact .of_same resolved.1 resolved.2
      | true =>
        cases moves
        exact .of_same resolved.1 resolved.2
  | resolved outcome =>
    cases step <;> try contradiction
    cases moves
    exact .of_same rfl rfl
  | applied outcome ok =>
    cases step <;> try (cases outcome <;> contradiction)
    cases outcome with
    | idle => cases moves; exact .of_same rfl rfl
    | readFailed => cases moves; exact .of_same rfl rfl
    | bootstrapping =>
      cases moves
      split
      · exact .of_same rfl rfl
      · exact markBootstrapFailed_advances state
    | delta delta touched =>
      rw [BlockPhase.step] at moves
      split at moves
      · cases moves
        exact .of_same rfl rfl
      · split at moves
        · cases moves
          exact .of_same rfl rfl
        · cases moves
          exact .of_same rfl rfl
  | committing delta =>
    cases step <;> try contradiction
    cases moves
    exact commitBlock_advances state slot delta
  | capExceeded =>
    cases step <;> try contradiction
    cases moves
    exact markStale_advances state
  | done => cases step <;> contradiction

namespace SupplySystem

variable {system next : SupplySystem} {event : SupplyEvent}

/-- Every event moves the tracker one way and publishes at most one row. -/
theorem step_advances (moves : system.step event = some next) :
    ∃ commit, system.state.Advances next.state commit ∧ next.published = system.published ++ commit.toList := by
  cases event with
  | setStartupTotal slot capitalization =>
    cases moves
    exact ⟨none, setStartupTotal_advances system.state slot capitalization, (List.append_nil _).symm⟩
  | markBootstrapFailed =>
    cases moves
    exact ⟨none, markBootstrapFailed_advances system.state, (List.append_nil _).symm⟩
  | finishBootstrap startupBalances =>
    rw [step] at moves
    split at moves
    · cases moves
      exact ⟨none, .of_same rfl rfl, (List.append_nil _).symm⟩
    · next state commit finished =>
      cases moves
      exact ⟨some commit, finishBootstrap_advances finished, rfl⟩
  | markGap =>
    cases moves
    exact ⟨none, markGap_advances system.state, (List.append_nil _).symm⟩
  | finishGap =>
    cases moves
    exact ⟨none, finishGap_advances system.state, (List.append_nil _).symm⟩
  | markStale =>
    cases moves
    exact ⟨none, markStale_advances system.state, (List.append_nil _).symm⟩
  | sweepIfDue slot =>
    obtain ⟨state, swept, rfl⟩ := Option.map_eq_some_iff.mp moves
    exact ⟨none, sweepIfDue_advances swept, (List.append_nil _).symm⟩
  | applyBlock task slot isRepaired pending stake =>
    rw [step] at moves
    split at moves
    · contradiction
    · cases moves
      exact ⟨none, .of_same rfl rfl, (List.append_nil _).symm⟩
  | blockStep task step =>
    obtain ⟨block, -, moves⟩ := Option.bind_eq_some_iff.mp moves
    obtain ⟨holder, -, moves⟩ := Option.bind_eq_some_iff.mp moves
    obtain ⟨⟨state, phase, commit⟩, stepped, moves⟩ := Option.bind_eq_some_iff.mp moves
    cases moves
    exact ⟨commit, BlockPhase.step_advances stepped, rfl⟩

/-- The published rows ascend, up to the tracker's slot. -/
structure Ascending (system : SupplySystem) : Prop where
  ordered : system.published.Pairwise fun first second => first.slot ≤ second.slot
  reached : ∀ row ∈ system.published, row.slot ≤ system.state.slot

theorem Ascending.step (ascending : system.Ascending) (moves : system.step event = some next) : next.Ascending := by
  obtain ⟨commit, advances, published⟩ := step_advances moves
  have below : ∀ row ∈ system.published, row.slot ≤ next.state.slot := fun row member =>
    (ascending.reached row member).trans advances.slot
  have latest : ∀ row ∈ commit.toList, row.slot = next.state.slot := by
    intro row member
    rw [(advances.published row (Option.mem_toList.mp member)).2]
    rfl
  refine ⟨?_, fun row member => ?_⟩
  · rw [published, List.pairwise_append]
    refine ⟨ascending.ordered, ?_, fun first member second after => ?_⟩
    · cases commit with
      | none => exact List.Pairwise.nil
      | some row => exact List.pairwise_singleton _ row
    · rw [latest second after]
      exact below first member
  · rw [published, List.mem_append] at member
    rcases member with member | member
    · exact below row member
    · exact (latest row member).le

/-- Nothing leaves the stale status, and nothing is published from it. -/
theorem stale_run {events : List SupplyEvent} {later : SupplySystem} (stale : system.state.status = .stale)
    (run : Run system step (fun _ _ _ => True) events later) :
    later.state.status = .stale ∧ later.published = system.published := by
  refine run.stateInvariant ⟨stale, rfl⟩ fun _ state event next ⟨status, same⟩ _ moves => ?_
  obtain ⟨commit, advances, published⟩ := step_advances moves
  have edge := advances.status
  rw [status] at edge
  have still := edge.stale
  refine ⟨still, ?_⟩
  cases commit with
  | none => rw [published, Option.toList_none, List.append_nil, same]
  | some row =>
    rw [(advances.published row rfl).1] at still
    contradiction

/-- Under every interleaving a row is published only while live, by the state it is read from; the status moves
along its edges; stale is final and publishes nothing; and the slots of the rows never decrease. -/
theorem rows_published_only_while_live (cap failPinCap : ℕ) {events : List SupplyEvent} {system : SupplySystem}
    (run : Run (new cap failPinCap) step (fun _ _ _ => True) events system) :
    (∀ event next, system.step event = some next →
      system.state.status.Moves next.state.status ∧
        (next.published = system.published ∨
          next.published = system.published ++ [next.state.commit] ∧ next.state.status = .live)) ∧
      (system.state.status = .stale → ∀ more later, Run system step (fun _ _ _ => True) more later →
        later.state.status = .stale ∧ later.published = system.published) ∧
      system.published.Pairwise fun first second => first.slot ≤ second.slot := by
  refine ⟨fun event next moves => ?_, fun stale more later onwards => stale_run stale onwards, ?_⟩
  · obtain ⟨commit, advances, published⟩ := step_advances moves
    refine ⟨advances.status, ?_⟩
    cases commit with
    | none => exact Or.inl (published.trans (List.append_nil _))
    | some row =>
      obtain ⟨live, same⟩ := advances.published row rfl
      exact Or.inr ⟨same ▸ published, live⟩
  · have ascending : system.Ascending := by
      refine run.stateInvariant ⟨List.Pairwise.nil, fun row member => absurd member List.not_mem_nil⟩ ?_
      exact fun _ _ _ _ ascending _ moves => ascending.step moves
    exact ascending.ordered

/-- A gap is marked while a block waits for its read, and closed before its commit. -/
private def gapAcrossABlock : List SupplyEvent :=
  [.setStartupTotal 100 1000, .finishBootstrap ∅, .applyBlock 0 101 false [⟨1, 0, 7⟩] .default,
    .blockStep 0 .probeBlock, .markGap, .blockStep 0 .readFails, .blockStep 0 (.readReturns fun _ => none),
    .blockStep 0 (.blockWrites true), .blockStep 0 .finishBlock, .finishGap, .blockStep 0 .commitBlock, .markStale]

theorem rows_published_around_a_gap :
    ∃ system, Run (new 10 10) step (fun _ _ _ => True) gapAcrossABlock system ∧
      system.published = [⟨100, 1000⟩, ⟨101, 1007⟩] ∧
      system.published.Pairwise fun first second => first.slot ≤ second.slot := by
  have replayed : (Run.replay step (fun _ _ _ => True) [] (new 10 10) gapAcrossABlock).any (fun system =>
      decide (system.published = [⟨100, 1000⟩, ⟨101, 1007⟩])) = true := by decide +kernel
  obtain ⟨system, ran, rows⟩ := (Option.any_eq_true _ _).mp replayed
  exact ⟨system, Run.replayed ran, of_decide_eq_true rows, (rows_published_only_while_live 10 10 (Run.replayed ran)).2.2⟩

end SupplySystem

end Cloudbreak.Model.Supply
