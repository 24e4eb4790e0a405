import Cloudbreak.Model.QueryTracker.Lifecycle
import Cloudbreak.ToMathlib.Run

/-! # The status of a pattern and its physical indexes

The two tasks never work on one pattern at a time: the creation loop holds a candidate and the eviction
task holds created patterns, and only the task that holds a pattern changes that status. So the status
matches the indexes as long as every drop that has removed a side goes through to its mark. A drop that
fails on its second side, or whose mark fails, leaves a created pattern without its pair.
-/

namespace Cloudbreak.Model.QueryTracker

open Cloudbreak.ToMathlib

/-- The sides that a task has gone through before the statement. -/
def Stage.passed : Stage → IndexTable → Bool
  | .accounts, _ => false
  | .snapshotAccounts, table => table = .accounts
  | .mark, _ => true

namespace Lifecycle

variable {Pattern : Type} [DecidableEq Pattern] {system next : Lifecycle Pattern}

/-- A drop that removed its first side succeeds on the second one, and its mark succeeds. -/
def GoesThrough (system : Lifecycle Pattern) : LifecycleEvent Pattern → Prop
  | .dropIndex succeeds => succeeds = false → ∀ pattern, system.dropping ≠ some (pattern, .snapshotAccounts)
  | .markDropped succeeds => succeeds = true
  | _ => True

abbrev LifecycleRun (indexes : Pattern → IndexTable → Bool) :=
  Run (new indexes) step fun _ system event => system.GoesThrough event

/-- The status of a pattern that no task works on matches its indexes; a task holds patterns of its own
status, and has gone through the sides before its statement. -/
structure Matching (system : Lifecycle Pattern) : Prop where
  created : ∀ pattern, system.status pattern = .created → (∀ stage, system.dropping ≠ some (pattern, stage)) →
    ∀ table, system.indexes pattern table = true
  gone : ∀ pattern, system.status pattern = .evicted ∨ system.status pattern = .rejected →
    ∀ table, system.indexes pattern table = false
  creating : ∀ pattern stage, system.creating = some (pattern, stage) → system.status pattern = .candidate ∧
    ∀ table, stage.passed table = true → system.indexes pattern table = true
  listed : ∀ pattern ∈ system.listed, system.status pattern = .created
  distinct : system.listed.Nodup
  dropping : ∀ pattern stage, system.dropping = some (pattern, stage) → system.status pattern = .created ∧
    pattern ∉ system.listed ∧ ∀ table, system.indexes pattern table = !stage.passed table

/-! ## Updates -/

theorem setStatus_status (pattern other : Pattern) (status : PatternStatus) :
    (system.setStatus pattern status).status other = if other = pattern then status else system.status other :=
  Function.update_apply ..

theorem setIndex_indexes (pattern other : Pattern) (table side : IndexTable) (present : Bool) :
    (system.setIndex pattern table present).indexes other side =
      if other = pattern ∧ side = table then present else system.indexes other side := by
  change Function.update system.indexes pattern (Function.update (system.indexes pattern) table present) other side = _
  rw [Function.update_apply]
  rcases eq_or_ne other pattern with rfl | different
  · rw [if_pos rfl, Function.update_apply]
    simp
  · simp [different]

/-! ## Steps -/

namespace Matching

/-- A pattern that no task holds may become a candidate again. -/
theorem setCandidate (matching : Matching system) {pattern : Pattern} (gone : system.status pattern ≠ .created) :
    Matching (system.setStatus pattern .candidate) := by
  refine ⟨?_, ?_, ?_, ?_, matching.distinct, ?_⟩
  · intro other isCreated
    rw [setStatus_status] at isCreated
    split at isCreated
    · cases isCreated
    · exact matching.created other isCreated
  · intro other isGone
    rw [setStatus_status] at isGone
    split at isGone
    · rcases isGone with evicted | rejected
      · cases evicted
      · cases rejected
    · exact matching.gone other isGone
  · intro other stage holds
    obtain ⟨candidate, built⟩ := matching.creating other stage holds
    refine ⟨?_, built⟩
    rw [setStatus_status]
    split
    · rfl
    · exact candidate
  · intro other member
    have isCreated := matching.listed other member
    rw [setStatus_status]
    split
    · next same => exact absurd (same ▸ isCreated) gone
    · exact isCreated
  · intro other stage holds
    obtain ⟨isCreated, rest⟩ := matching.dropping other stage holds
    refine ⟨?_, rest⟩
    rw [setStatus_status]
    split
    · next same => exact absurd (same ▸ isCreated) gone
    · exact isCreated

theorem recordDemand (matching : Matching system) (pattern : Pattern) : Matching (system.recordDemand pattern) := by
  rw [Lifecycle.recordDemand]
  split
  · next evicted => exact matching.setCandidate (by rw [evicted]; decide)
  · exact matching

theorem promoteRecovered (matching : Matching system) (pattern : Pattern) :
    Matching (system.promoteRecovered pattern) := by
  rw [Lifecycle.promoteRecovered]
  split
  · next rejected => exact matching.setCandidate (by rw [rejected]; decide)
  · exact matching

omit [DecidableEq Pattern] in
/-- The creation loop may take up a candidate or give its task up at any time. -/
theorem setCreating (matching : Matching system) {creating : Option (Pattern × Stage)}
    (holds : ∀ pattern stage, creating = some (pattern, stage) → system.status pattern = .candidate ∧
      ∀ table, stage.passed table = true → system.indexes pattern table = true) :
    Matching { system with creating } :=
  ⟨matching.created, matching.gone, holds, matching.listed, matching.distinct, matching.dropping⟩

/-- A side is built for the candidate that the creation loop holds. -/
theorem buildSide (matching : Matching system) {pattern : Pattern} {stage stage' : Stage} {table : IndexTable}
    (holds : system.creating = some (pattern, stage))
    (advances : ∀ side, stage'.passed side = true → side = table ∨ stage.passed side = true) :
    Matching { system.setIndex pattern table true with creating := some (pattern, stage') } := by
  obtain ⟨candidate, built⟩ := matching.creating pattern stage holds
  have others : ∀ other, system.status other ≠ .candidate → ∀ side,
      (system.setIndex pattern table true).indexes other side = system.indexes other side := by
    intro other notCandidate side
    rw [setIndex_indexes, if_neg]
    rintro ⟨rfl, -⟩
    exact notCandidate candidate
  refine ⟨?_, ?_, ?_, matching.listed, matching.distinct, ?_⟩
  · intro other isCreated idle side
    have notCandidate : system.status other ≠ .candidate := fun same =>
      absurd (same.symm.trans isCreated) (by decide)
    exact (others other notCandidate side).trans (matching.created other isCreated idle side)
  · intro other isGone side
    have notCandidate : system.status other ≠ .candidate := by
      intro same
      rcases isGone with evicted | rejected
      · exact absurd (same.symm.trans evicted) (by decide)
      · exact absurd (same.symm.trans rejected) (by decide)
    exact (others other notCandidate side).trans (matching.gone other isGone side)
  · rintro other stage'' same
    obtain ⟨rfl, rfl⟩ := Prod.mk.inj (Option.some.inj same)
    refine ⟨candidate, fun side passed => ?_⟩
    change (system.setIndex pattern table true).indexes pattern side = true
    rw [setIndex_indexes]
    split
    · rfl
    · next other =>
      rcases advances side passed with rfl | before
      · exact absurd ⟨rfl, rfl⟩ other
      · exact built side before
  · intro other stage'' drops
    obtain ⟨isCreated, unlisted, sides⟩ := matching.dropping other stage'' drops
    refine ⟨isCreated, unlisted, fun side => ?_⟩
    have notCandidate : system.status other ≠ .candidate := by
      rw [isCreated]
      decide
    exact (others other notCandidate side).trans (sides side)

theorem markCreated (matching : Matching system) {pattern : Pattern}
    (holds : system.creating = some (pattern, .mark)) :
    Matching { system.setStatus pattern .created with creating := none } := by
  obtain ⟨candidate, built⟩ := matching.creating pattern .mark holds
  refine ⟨?_, ?_, fun _ _ impossible => absurd impossible (by simp), ?_, matching.distinct, ?_⟩
  · intro other isCreated idle
    change (system.setStatus pattern .created).status other = .created at isCreated
    rw [setStatus_status] at isCreated
    split at isCreated
    · next same => exact fun table => same ▸ built table rfl
    · exact matching.created other isCreated idle
  · intro other isGone
    change (system.setStatus pattern .created).status other = .evicted ∨
      (system.setStatus pattern .created).status other = .rejected at isGone
    rw [setStatus_status] at isGone
    split at isGone
    · rcases isGone with evicted | rejected
      · cases evicted
      · cases rejected
    · exact matching.gone other isGone
  · intro other member
    change (system.setStatus pattern .created).status other = .created
    rw [setStatus_status]
    split
    · rfl
    · exact matching.listed other member
  · intro other stage drops
    obtain ⟨isCreated, rest⟩ := matching.dropping other stage drops
    refine ⟨?_, rest⟩
    change (system.setStatus pattern .created).status other = .created
    rw [setStatus_status]
    split
    · rfl
    · exact isCreated

omit [DecidableEq Pattern] in
theorem listDrops (matching : Matching system) {kind : DropKind} {patterns : List Pattern}
    (idle : system.dropping = none) (distinct : patterns.Nodup)
    (created : ∀ pattern ∈ patterns, system.status pattern = .created) :
    Matching { system with kind, listed := patterns } := by
  refine ⟨matching.created, matching.gone, matching.creating, created, distinct, ?_⟩
  intro pattern stage drops
  exact absurd (idle.symm.trans drops) (by simp)

omit [DecidableEq Pattern] in
/-- Patterns may leave the list. -/
theorem shortenList (matching : Matching system) {listed : List Pattern} (shorter : listed.Sublist system.listed) :
    Matching { system with listed } := by
  refine ⟨matching.created, matching.gone, matching.creating,
    fun pattern member => matching.listed pattern (shorter.subset member), matching.distinct.sublist shorter, ?_⟩
  intro pattern stage drops
  obtain ⟨isCreated, unlisted, sides⟩ := matching.dropping pattern stage drops
  exact ⟨isCreated, fun member => unlisted (shorter.subset member), sides⟩

omit [DecidableEq Pattern] in
theorem startDrop (matching : Matching system) {pattern : Pattern} {listed : List Pattern}
    (list : system.listed = pattern :: listed) (idle : system.dropping = none) :
    Matching { system with listed, dropping := some (pattern, .accounts) } := by
  have isCreated := matching.listed pattern (list ▸ List.mem_cons_self ..)
  have distinct := matching.distinct
  rw [list, List.nodup_cons] at distinct
  have unheld : ∀ other stage, system.dropping ≠ some (other, stage) := by
    intro other stage drops
    exact absurd (idle.symm.trans drops) (by simp)
  refine ⟨fun other created _ => matching.created other created (unheld other), matching.gone, matching.creating,
    fun other member => matching.listed other (list ▸ List.mem_cons_of_mem _ member), distinct.2, ?_⟩
  intro other stage drops
  obtain ⟨rfl, rfl⟩ := Prod.mk.inj (Option.some.inj drops)
  exact ⟨isCreated, distinct.1, fun table => matching.created pattern isCreated (unheld pattern) table⟩

/-- A side is dropped for the pattern that the eviction task holds. -/
theorem dropSide (matching : Matching system) {pattern : Pattern} {stage stage' : Stage} {table : IndexTable}
    (holds : system.dropping = some (pattern, stage))
    (advances : ∀ side, stage'.passed side = (decide (side = table) || stage.passed side)) :
    Matching { system.setIndex pattern table false with dropping := some (pattern, stage') } := by
  obtain ⟨isCreated, unlisted, sides⟩ := matching.dropping pattern stage holds
  refine ⟨?_, ?_, ?_, matching.listed, matching.distinct, ?_⟩
  · intro other created unheld side
    have different : other ≠ pattern := fun same => unheld stage' (by rw [same])
    have before : ∀ stage'', system.dropping ≠ some (other, stage'') := by
      intro stage'' drops
      rw [holds] at drops
      exact different (Prod.mk.inj (Option.some.inj drops)).1.symm
    change (system.setIndex pattern table false).indexes other side = true
    rw [setIndex_indexes, if_neg (fun same => different same.1)]
    exact matching.created other created before side
  · intro other isGone side
    change (system.setIndex pattern table false).indexes other side = false
    rw [setIndex_indexes]
    split
    · rfl
    · exact matching.gone other isGone side
  · intro other stage'' creates
    obtain ⟨candidate, built⟩ := matching.creating other stage'' creates
    refine ⟨candidate, fun side passed => ?_⟩
    change (system.setIndex pattern table false).indexes other side = true
    rw [setIndex_indexes, if_neg]
    · exact built side passed
    · rintro ⟨rfl, -⟩
      exact absurd (candidate.symm.trans isCreated) (by decide)
  · intro other stage'' drops
    obtain ⟨rfl, rfl⟩ := Prod.mk.inj (Option.some.inj drops)
    refine ⟨isCreated, unlisted, fun side => ?_⟩
    change (system.setIndex pattern table false).indexes pattern side = _
    rw [setIndex_indexes, advances, sides]
    rcases eq_or_ne side table with rfl | different
    · simp
    · simp [different]

omit [DecidableEq Pattern] in
/-- A drop that fails before it removed anything leaves the pair as it was. -/
theorem abandonDrop (matching : Matching system) {pattern : Pattern}
    (holds : system.dropping = some (pattern, .accounts)) : Matching { system with dropping := none } := by
  refine ⟨?_, matching.gone, matching.creating, matching.listed, matching.distinct,
    fun _ _ impossible => absurd impossible (by simp)⟩
  intro other created _ table
  rcases eq_or_ne other pattern with rfl | different
  · exact (matching.dropping other .accounts holds).2.2 table
  · refine matching.created other created (fun stage drops => ?_) table
    rw [holds] at drops
    exact different (Prod.mk.inj (Option.some.inj drops)).1.symm

theorem markDropped (matching : Matching system) {pattern : Pattern}
    (holds : system.dropping = some (pattern, .mark)) :
    Matching { system.setStatus pattern system.kind.mark with dropping := none } := by
  obtain ⟨isCreated, unlisted, sides⟩ := matching.dropping pattern .mark holds
  have marked : system.kind.mark ≠ .created ∧ system.kind.mark ≠ .candidate := by
    cases system.kind <;> decide
  refine ⟨?_, ?_, ?_, ?_, matching.distinct, fun _ _ impossible => absurd impossible (by simp)⟩
  · intro other created _ table
    change (system.setStatus pattern system.kind.mark).status other = .created at created
    rw [setStatus_status] at created
    split at created
    · exact absurd created marked.1
    · next different =>
      refine matching.created other created (fun stage drops => ?_) table
      rw [holds] at drops
      exact different (Prod.mk.inj (Option.some.inj drops)).1.symm
  · intro other isGone table
    change (system.setStatus pattern system.kind.mark).status other = .evicted ∨
      (system.setStatus pattern system.kind.mark).status other = .rejected at isGone
    rw [setStatus_status] at isGone
    split at isGone
    · next same => exact same ▸ sides table
    · exact matching.gone other isGone table
  · intro other stage creates
    obtain ⟨candidate, built⟩ := matching.creating other stage creates
    refine ⟨?_, built⟩
    change (system.setStatus pattern system.kind.mark).status other = .candidate
    rw [setStatus_status, if_neg]
    · exact candidate
    · rintro rfl
      exact absurd (candidate.symm.trans isCreated) (by decide)
  · intro other member
    change (system.setStatus pattern system.kind.mark).status other = .created
    rw [setStatus_status, if_neg]
    · exact matching.listed other member
    · rintro rfl
      exact unlisted member

omit [DecidableEq Pattern] in
theorem new (indexes : Pattern → IndexTable → Bool) : Matching (Lifecycle.new indexes) := by
  refine ⟨?_, ?_, ?_, ?_, List.nodup_nil, ?_⟩
  · intro pattern created
    cases created
  · rintro pattern (evicted | rejected)
    · cases evicted
    · cases rejected
  · intro pattern stage creates
    cases creates
  · intro pattern member
    exact absurd member List.not_mem_nil
  · intro pattern stage drops
    cases drops

private theorem createIndex (matching : Matching system) {succeeds : Bool}
    (moves : system.step (.createIndex succeeds) = some next) : Matching next := by
  rw [Lifecycle.step, Lifecycle.createIndex] at moves
  split at moves
  · next pattern holds =>
    split at moves
    · obtain rfl := Option.some.inj moves
      exact matching.buildSide holds fun side passed => Or.inl (of_decide_eq_true passed)
    · obtain rfl := Option.some.inj moves
      exact matching.setCreating fun _ _ impossible => absurd impossible (by simp)
  · next pattern holds =>
    split at moves
    · obtain rfl := Option.some.inj moves
      refine matching.buildSide holds fun side _ => ?_
      cases side with
      | accounts => exact Or.inr rfl
      | snapshotAccounts => exact Or.inl rfl
    · obtain rfl := Option.some.inj moves
      exact matching.setCreating fun _ _ impossible => absurd impossible (by simp)
  · cases moves

private theorem dropIndex (matching : Matching system) {succeeds : Bool}
    (goes : system.GoesThrough (.dropIndex succeeds)) (moves : system.step (.dropIndex succeeds) = some next) :
    Matching next := by
  rw [Lifecycle.step, Lifecycle.dropIndex] at moves
  split at moves
  · next pattern holds =>
    split at moves
    · obtain rfl := Option.some.inj moves
      exact matching.dropSide holds fun side => by cases side <;> rfl
    · obtain rfl := Option.some.inj moves
      exact matching.abandonDrop holds
  · next pattern holds =>
    split at moves
    · obtain rfl := Option.some.inj moves
      exact matching.dropSide holds fun side => by cases side <;> rfl
    · next fails => exact absurd holds (goes (by simpa using fails) pattern)
  · cases moves

theorem step (matching : Matching system) {event : LifecycleEvent Pattern} (goes : system.GoesThrough event)
    (moves : system.step event = some next) : Matching next := by
  cases event with
  | recordDemand pattern =>
    obtain rfl := Option.some.inj moves
    exact matching.recordDemand pattern
  | promoteRecovered pattern =>
    obtain rfl := Option.some.inj moves
    exact matching.promoteRecovered pattern
  | chooseCandidate pattern =>
    rw [Lifecycle.step] at moves
    split at moves
    · next free =>
      obtain rfl := Option.some.inj moves
      refine matching.setCreating fun other stage same => ?_
      obtain ⟨rfl, rfl⟩ := Prod.mk.inj (Option.some.inj same)
      exact ⟨free.2, fun table passed => by cases passed⟩
    · cases moves
  | declineCandidate =>
    obtain rfl := Option.some.inj moves
    refine matching.setCreating fun other stage same => ?_
    exact matching.creating other stage (Option.filter_eq_some_iff.mp same).1
  | createIndex succeeds => exact matching.createIndex moves
  | markCreated succeeds =>
    rw [Lifecycle.step, Lifecycle.markCreated] at moves
    split at moves
    · next pattern holds =>
      split at moves
      · obtain rfl := Option.some.inj moves
        exact matching.markCreated holds
      · obtain rfl := Option.some.inj moves
        exact matching.setCreating fun _ _ impossible => absurd impossible (by simp)
    · cases moves
  | listDrops kind patterns =>
    rw [Lifecycle.step] at moves
    split at moves
    · next free =>
      obtain rfl := Option.some.inj moves
      refine matching.listDrops free.2.1 free.2.2.1 fun pattern member => ?_
      simpa using List.all_eq_true.mp free.2.2.2 pattern member
    · cases moves
  | startDrop =>
    rw [Lifecycle.step] at moves
    split at moves
    · next pattern listed list idle =>
      obtain rfl := Option.some.inj moves
      exact matching.startDrop list idle
    · cases moves
  | skipDrop =>
    obtain rfl := Option.some.inj moves
    exact matching.shortenList (List.tail_sublist _)
  | stopDrops =>
    obtain rfl := Option.some.inj moves
    exact matching.shortenList (List.nil_sublist _)
  | dropIndex succeeds => exact matching.dropIndex goes moves
  | markDropped succeeds =>
    rw [Lifecycle.step, Lifecycle.markDropped] at moves
    split at moves
    · next pattern holds =>
      split at moves
      · obtain rfl := Option.some.inj moves
        exact matching.markDropped holds
      · next fails => exact absurd goes fails
    · cases moves

end Matching

private theorem matching_run {indexes : Pattern → IndexTable → Bool} {events : List (LifecycleEvent Pattern)}
    (run : LifecycleRun indexes events system) : Matching system :=
  run.stateInvariant (Matching.new indexes) fun _ _ _ _ matching goes moves => matching.step goes moves

/-- A created pattern has both indexes, an evicted or rejected one has neither. -/
def StatusMatches (system : Lifecycle Pattern) (pattern : Pattern) : Prop :=
  (system.status pattern = .created → ∀ table, system.indexes pattern table = true) ∧
  (system.status pattern = .evicted ∨ system.status pattern = .rejected →
    ∀ table, system.indexes pattern table = false)

omit [DecidableEq Pattern] in
/-- A drop that is given up after its first side leaves a created pattern without that side. -/
theorem abandoned_breaks (matching : Matching system) {pattern : Pattern} {stage : Stage}
    (holds : system.dropping = some (pattern, stage)) (removed : stage.passed .accounts = true) :
    ¬ InProgress { system with dropping := none } pattern ∧
      ¬ StatusMatches { system with dropping := none } pattern := by
  obtain ⟨isCreated, -, sides⟩ := matching.dropping pattern stage holds
  constructor
  · rintro (⟨stage', creates⟩ | ⟨stage', drops⟩)
    · have candidate := (matching.creating pattern stage' creates).1
      exact absurd (candidate.symm.trans isCreated) (by decide)
    · cases drops
  · rintro ⟨present, -⟩
    have missing : system.indexes pattern .accounts = false := by rw [sides, removed]; rfl
    exact absurd (missing.symm.trans (present isCreated .accounts)) (by decide)

/-- In every run in which drops that have removed a side go through, the status of every pattern that is
not being created or dropped matches its indexes. The first drop that does not go through leaves its
pattern with a status that does not match. -/
theorem status_matches_indexes {indexes : Pattern → IndexTable → Bool} {events : List (LifecycleEvent Pattern)}
    (run : LifecycleRun indexes events system) :
    (∀ pattern, ¬ system.InProgress pattern → system.StatusMatches pattern) ∧
    (∀ event next, system.step event = some next → ¬ system.GoesThrough event →
      ∃ pattern, ¬ next.InProgress pattern ∧ ¬ next.StatusMatches pattern) := by
  have matching := matching_run run
  refine ⟨fun pattern idle => ⟨fun isCreated => ?_, matching.gone pattern⟩, ?_⟩
  · exact matching.created pattern isCreated fun stage drops => idle (Or.inr ⟨stage, drops⟩)
  · intro event next moves stuck
    cases event with
    | dropIndex succeeds =>
      rw [GoesThrough, Classical.not_imp] at stuck
      obtain ⟨rfl, stuck⟩ := stuck
      push Not at stuck
      obtain ⟨pattern, holds⟩ := stuck
      simp only [Lifecycle.step, Lifecycle.dropIndex, holds, Bool.false_eq_true, if_false] at moves
      obtain rfl := Option.some.inj moves
      exact ⟨pattern, abandoned_breaks matching holds rfl⟩
    | markDropped succeeds =>
      obtain rfl : succeeds = false := by simpa [GoesThrough] using stuck
      rw [Lifecycle.step, Lifecycle.markDropped] at moves
      split at moves
      · next pattern holds =>
        obtain rfl := Option.some.inj moves
        exact ⟨pattern, abandoned_breaks matching holds rfl⟩
      · cases moves
    | recordDemand _ | promoteRecovered _ | chooseCandidate _ | createIndex _ | markCreated _ | listDrops _ _ =>
      exact absurd trivial stuck
    | declineCandidate | startDrop | skipDrop | stopDrops => exact absurd trivial stuck

instance (system : Lifecycle Unit) : DecidablePred system.GoesThrough
  | .dropIndex succeeds =>
    inferInstanceAs (Decidable (succeeds = false → ∀ _ : Unit, system.dropping ≠ some (_, .snapshotAccounts)))
  | .markDropped succeeds => inferInstanceAs (Decidable (succeeds = true))
  | .recordDemand _ | .promoteRecovered _ | .chooseCandidate _ | .createIndex _ | .markCreated _ | .listDrops _ _
  | .declineCandidate | .startDrop | .skipDrop | .stopDrops => inferInstanceAs (Decidable True)

/-- A pattern is built, and its trim starts. -/
def builtAndListed : List (LifecycleEvent Unit) :=
  [.chooseCandidate (), .createIndex true, .createIndex true, .markCreated true, .listDrops .trim [()], .startDrop,
    .dropIndex true]

/-- Both sides and the mark of a trim go through: the pattern is evicted, without indexes. -/
theorem status_matches_after_a_trim : ∃ events system,
    LifecycleRun (fun (_ : Unit) _ => false) events system ∧ system.status () = .evicted ∧
      system.StatusMatches () := by
  obtain ⟨last, ran, status, creating, dropping⟩ : ∃ last, Run.replay step (fun _ system event => GoesThrough system event)
      [] (new fun (_ : Unit) _ => false) (builtAndListed ++ [.dropIndex true, .markDropped true]) = some last ∧
      last.status () = .evicted ∧ last.creating = none ∧ last.dropping = none := ⟨_, rfl, rfl, rfl, rfl⟩
  have run := Run.replayed ran
  refine ⟨_, last, run, status, (status_matches_indexes run).1 () ?_⟩
  rintro (⟨stage, creates⟩ | ⟨stage, drops⟩)
  · exact absurd (creating.symm.trans creates) (by simp)
  · exact absurd (dropping.symm.trans drops) (by simp)

/-- The drop of the second side fails: the pattern stays created with one index. -/
theorem half_dropped_pair_stays_created :
    ¬ ∀ (events : List (LifecycleEvent Unit)) (system : Lifecycle Unit),
      Run (new fun _ _ => false) step (fun _ _ _ => True) events system →
        ∀ pattern, ¬ system.InProgress pattern → system.StatusMatches pattern := by
  intro matches_always
  obtain ⟨last, ran, status, missing, creating, dropping⟩ : ∃ last, Run.replay step (fun _ _ _ => True) []
      (new fun (_ : Unit) _ => false) (builtAndListed ++ [.dropIndex false]) = some last ∧ last.status () = .created ∧
      last.indexes () .accounts = false ∧ last.creating = none ∧ last.dropping = none := ⟨_, rfl, rfl, rfl, rfl, rfl⟩
  have shown := (matches_always _ last (Run.replayed ran) () (by
    rintro (⟨stage, creates⟩ | ⟨stage, drops⟩)
    · exact absurd (creating.symm.trans creates) (by simp)
    · exact absurd (dropping.symm.trans drops) (by simp))).1 status .accounts
  exact absurd (missing.symm.trans shown) (by decide)

end Lifecycle

end Cloudbreak.Model.QueryTracker
