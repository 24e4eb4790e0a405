import Cloudbreak.Model.QueryTracker.Eviction
import Cloudbreak.ToMathlib.Run

/-! # What an idle trim drops

Between the read of the candidates and a drop, nothing but demand can take the eligibility of a candidate
away: its row stays created, its creation time stays, and the clock only moves forward. The count of the
pass stays a lower bound for the number of indexes, since others only build. A candidate that was demanded
after the read is dropped all the same.
-/

namespace Cloudbreak.Model.QueryTracker

open Cloudbreak.ToMathlib

variable {Pattern : Type} {config : EvictionConfig}

/-! ## Rows -/

namespace PatternTimes

/-- The columns that the age and the demand are computed from. -/
structure SameTimes (row row' : PatternTimes) : Prop where
  status : row'.status = row.status
  firstSeenAt : row'.firstSeenAt = row.firstSeenAt
  createdAt : row'.createdAt = row.createdAt
  lastDemandAt : row'.lastDemandAt = row.lastDemandAt

theorem SameTimes.refl (row : PatternTimes) : row.SameTimes row := ⟨rfl, rfl, rfl, rfl⟩

theorem PastAge.later {row row' : PatternTimes} {now later : ℤ} (pastAge : row.PastAge config now)
    (le : now ≤ later) (firstSeenAt : row'.firstSeenAt = row.firstSeenAt) (createdAt : row'.createdAt = row.createdAt) :
    row'.PastAge config later := by
  rw [PastAge] at pastAge ⊢
  rw [firstSeenAt, createdAt]
  omega

theorem DemandIdle.later {row row' : PatternTimes} {now later : ℤ} (idle : row.DemandIdle config now)
    (le : now ≤ later) (firstSeenAt : row'.firstSeenAt = row.firstSeenAt)
    (lastDemandAt : row'.lastDemandAt = row.lastDemandAt) : row'.DemandIdle config later := by
  rw [DemandIdle] at idle ⊢
  rw [firstSeenAt, lastDemandAt]
  omega

end PatternTimes

/-- A row that the pass has read as eligible: it is created and past the age grace, and it is demand-idle
unless its last demand came after the read. -/
structure Standing (config : EvictionConfig) (now : ℤ) (demanded : List (Pattern × ℤ)) (pattern : Pattern)
    (row : PatternTimes) : Prop where
  created : row.status = .created
  pastAge : row.PastAge config now
  demand : (row.DemandIdle config now ∧ ∀ time, (pattern, time) ∉ demanded) ∨
    ∃ last, row.lastDemandAt = some last ∧ last ≤ now ∧ (pattern, last) ∈ demanded ∧
      ∀ time, (pattern, time) ∈ demanded → time ≤ last

namespace Standing

variable {now : ℤ} {demanded : List (Pattern × ℤ)} {pattern : Pattern} {row : PatternTimes}

private theorem of_eligible (eligible : row.Eligible config now) : Standing config now [] pattern row :=
  ⟨eligible.1, eligible.2.1, Or.inl ⟨eligible.2.2.2, fun _ => List.not_mem_nil⟩⟩

theorem later (standing : Standing config now demanded pattern row) {row' : PatternTimes} {later : ℤ}
    (le : now ≤ later) (same : row.SameTimes row') : Standing config later demanded pattern row' := by
  refine ⟨same.status.trans standing.created, standing.pastAge.later le same.firstSeenAt same.createdAt, ?_⟩
  rcases standing.demand with ⟨idle, quiet⟩ | ⟨last, lastDemand, past, member, newest⟩
  · exact Or.inl ⟨idle.later le same.firstSeenAt same.lastDemandAt, quiet⟩
  · exact Or.inr ⟨last, same.lastDemandAt.trans lastDemand, past.trans le, member, newest⟩

/-- Demand for the pattern moves its last demand to the present. -/
theorem demandedNow (standing : Standing config now demanded pattern row) {row' : PatternTimes}
    (status : row'.status = row.status) (firstSeenAt : row'.firstSeenAt = row.firstSeenAt)
    (createdAt : row'.createdAt = row.createdAt) (lastDemandAt : row'.lastDemandAt = some now) :
    Standing config now (demanded ++ [(pattern, now)]) pattern row' := by
  refine ⟨status.trans standing.created, standing.pastAge.later le_rfl firstSeenAt createdAt, Or.inr ?_⟩
  refine ⟨now, lastDemandAt, le_rfl, List.mem_append_right _ (List.mem_singleton_self _), fun time member => ?_⟩
  rcases List.mem_append.mp member with before | same
  · rcases standing.demand with ⟨-, quiet⟩ | ⟨last, -, past, -, newest⟩
    · exact absurd before (quiet time)
    · exact (newest time before).trans past
  · rw [List.mem_singleton, Prod.mk.injEq] at same
    exact same.2.le

/-- Demand for another pattern changes nothing here. -/
theorem demandedOther (standing : Standing config now demanded pattern row) {other : Pattern} {time : ℤ}
    (different : pattern ≠ other) : Standing config now (demanded ++ [(other, time)]) pattern row := by
  have same : ∀ at', (pattern, at') ∈ demanded ++ [(other, time)] ↔ (pattern, at') ∈ demanded := by
    intro at'
    rw [List.mem_append, List.mem_singleton, Prod.mk.injEq]
    exact ⟨fun member => member.resolve_right fun equal => different equal.1, Or.inl⟩
  refine ⟨standing.created, standing.pastAge, ?_⟩
  simpa only [same] using standing.demand

/-- The row is demand-idle exactly when every demand after the read is older than the idle time. -/
theorem idle_iff (standing : Standing config now demanded pattern row) :
    row.DemandIdle config now ↔ ∀ time, (pattern, time) ∈ demanded → now - time > config.minIdle := by
  rcases standing.demand with ⟨idle, quiet⟩ | ⟨last, lastDemand, -, member, newest⟩
  · exact ⟨fun _ time demand => absurd demand (quiet time), fun _ => idle⟩
  · have unfolds : row.DemandIdle config now ↔ now - last > config.minIdle := by
      rw [PatternTimes.DemandIdle, lastDemand, Option.getD_some]
    rw [unfolds]
    constructor
    · intro idle time demand
      have le := newest time demand
      omega
    · exact fun idle => idle last member

end Standing

/-! ## Passes -/

/-- The pass still counts on the pattern: it is a candidate, or the one being dropped. -/
def Trim.Holds (trim : Trim Pattern) (pattern : Pattern) : Prop :=
  (∃ candidates, trim.candidates = some candidates ∧ pattern ∈ candidates) ∨
    ∃ stage, trim.dropping = some (pattern, stage)

namespace EvictionSystem

variable [DecidableEq Pattern] {system next : EvictionSystem Pattern} {trim : Trim Pattern}

/-- What a pass that has counted relies on. -/
structure Sound (config : EvictionConfig) (system : EvictionSystem Pattern) (trim : Trim Pattern) : Prop where
  standing : ∀ pattern, trim.Holds pattern →
    ∃ row, system.rows pattern = some row ∧ Standing config system.now trim.demanded pattern row
  unread : trim.candidates = none → trim.dropping = none
  distinct : ∀ candidates, trim.candidates = some candidates → candidates.Nodup ∧
    ∀ pattern stage, trim.dropping = some (pattern, stage) → pattern ∉ candidates
  counted : trim.count ≤ system.tableIndexes + 1
  settled : (∀ pattern, trim.dropping ≠ some (pattern, .mark)) → trim.count ≤ system.tableIndexes
  above : ∀ pattern stage, trim.dropping = some (pattern, stage) → stage ≠ .mark → config.target < trim.count

/-- Steps of others while a pass runs: they keep the rows that are created, and only build. -/
structure Quiet (system next : EvictionSystem Pattern) : Prop where
  trim : next.trim = system.trim
  now : system.now ≤ next.now
  rows : ∀ pattern row, system.rows pattern = some row → row.status = .created →
    ∃ row', next.rows pattern = some row' ∧ row.SameTimes row'
  indexes : system.tableIndexes ≤ next.tableIndexes

def AllSound (config : EvictionConfig) (system : EvictionSystem Pattern) : Prop :=
  ∀ trim, system.trim = some trim → Sound config system trim

omit [DecidableEq Pattern] in
theorem Sound.quiet (sound : Sound config system trim) (quiet : Quiet system next) : Sound config next trim := by
  have grown := quiet.indexes
  refine ⟨fun pattern holds => ?_, sound.unread, sound.distinct, ?_, fun unmarked => ?_, sound.above⟩
  · obtain ⟨row, found, standing⟩ := sound.standing pattern holds
    obtain ⟨row', found', same⟩ := quiet.rows pattern row found standing.created
    exact ⟨row', found', standing.later quiet.now same⟩
  · have counted := sound.counted
    omega
  · have settled := sound.settled unmarked
    omega

omit [DecidableEq Pattern] in
theorem AllSound.quiet (sound : AllSound config system) (quiet : Quiet system next) : AllSound config next :=
  fun trim runs => (sound trim (quiet.trim.symm.trans runs)).quiet quiet

/-- One row is replaced that is not created. -/
theorem quiet_setRow {pattern : Pattern} {row row' : PatternTimes} (found : system.rows pattern = some row)
    (same : row.status = .created → row.SameTimes row') : Quiet system (system.setRow pattern row') := by
  refine ⟨rfl, le_rfl, fun other row'' found' isCreated => ?_, le_rfl⟩
  change ∃ row', Function.update system.rows pattern (some _) other = some row' ∧ _
  rw [Function.update_apply]
  split
  · next equal =>
    subst equal
    obtain rfl := Option.some.inj (found.symm.trans found')
    exact ⟨row', rfl, same isCreated⟩
  · exact ⟨row'', found', .refl row''⟩

/-! ## Steps -/

namespace Sound

theorem recordDemand (sound : Sound config system trim) (pattern : Pattern) :
    Sound config (system.recordDemand pattern) (trim.recordDemand system.now pattern) := by
  refine ⟨fun other holds => ?_, sound.unread, sound.distinct, sound.counted, sound.settled, sound.above⟩
  obtain ⟨row, found, standing⟩ := sound.standing other holds
  change ∃ row, Function.update system.rows pattern _ other = some row ∧
    Standing config system.now (trim.demanded ++ [(pattern, system.now)]) other row
  rw [Function.update_apply]
  split
  · next same =>
    subst same
    refine ⟨_, rfl, ?_⟩
    rw [found]
    refine standing.demandedNow ?_ rfl rfl rfl
    rw [demandedRow, standing.created]
    rfl
  · next different => exact ⟨row, found, standing.demandedOther different⟩

omit [DecidableEq Pattern] in
/-- The candidates are eligible at the moment they are read. -/
theorem readCandidates (sound : Sound config system trim) {patterns : List Pattern} (unread : trim.candidates = none)
    (distinct : patterns.Nodup)
    (eligible : ∀ pattern ∈ patterns, ∃ row, system.rows pattern = some row ∧ row.Eligible config system.now) :
    Sound config { system with trim := some { trim with candidates := some patterns, demanded := [] } }
      { trim with candidates := some patterns, demanded := [] } := by
  have idle := sound.unread unread
  refine ⟨?_, fun _ => idle, ?_, sound.counted, sound.settled, sound.above⟩
  · rintro pattern (⟨_, same, member⟩ | ⟨stage, drops⟩)
    · obtain rfl := Option.some.inj same
      obtain ⟨row, found, isEligible⟩ := eligible pattern member
      exact ⟨row, found, .of_eligible isEligible⟩
    · exact absurd (idle.symm.trans drops) (by simp)
  · intro candidates same
    obtain rfl := Option.some.inj same
    exact ⟨distinct, fun pattern stage drops => absurd (idle.symm.trans drops) (by simp)⟩

omit [DecidableEq Pattern] in
/-- The pass goes on to another statement of its list, for a pattern that it holds. -/
theorem advance (sound : Sound config system trim) {candidates : List Pattern} {dropping : Option (Pattern × Stage)}
    (holds : ∀ pattern, (pattern ∈ candidates ∨ ∃ stage, dropping = some (pattern, stage)) → trim.Holds pattern)
    (distinct : candidates.Nodup ∧ ∀ pattern stage, dropping = some (pattern, stage) → pattern ∉ candidates)
    (unmarked : ∀ pattern, trim.dropping ≠ some (pattern, .mark))
    (above : ∀ pattern stage, dropping = some (pattern, stage) → config.target < trim.count) :
    Sound config { system with trim := some ⟨trim.count, some candidates, dropping, trim.demanded⟩ }
      ⟨trim.count, some candidates, dropping, trim.demanded⟩ := by
  refine ⟨?_, fun none => absurd none (by simp), ?_, sound.counted, fun _ => sound.settled unmarked,
    fun pattern stage drops _ => above pattern stage drops⟩
  · rintro pattern (⟨_, same, member⟩ | drops)
    · obtain rfl := Option.some.inj same
      exact sound.standing pattern (holds pattern (Or.inl member))
    · exact sound.standing pattern (holds pattern (Or.inr drops))
  · intro _ same
    obtain rfl := Option.some.inj same
    exact distinct

end Sound

private theorem tableIndexes_insert (pattern : Pattern) :
    system.tableIndexes ≤ tableIndexes { system with indexed := insert pattern system.indexed } := by
  have grown := Finset.card_le_card (Finset.subset_insert pattern system.indexed)
  rw [tableIndexes, tableIndexes]
  change (system.otherIndexes : ℤ) + system.indexed.card ≤ system.otherIndexes + (insert pattern system.indexed).card
  omega

private theorem tableIndexes_erase (pattern : Pattern) :
    system.tableIndexes ≤ tableIndexes { system with indexed := system.indexed.erase pattern } + 1 := by
  have shrunk := Finset.pred_card_le_card_erase (s := system.indexed) (a := pattern)
  rw [tableIndexes, tableIndexes]
  change (system.otherIndexes : ℤ) + system.indexed.card ≤
    system.otherIndexes + (system.indexed.erase pattern).card + 1
  omega

namespace Sound

omit [DecidableEq Pattern] in
/-- A pass that drops has read its candidates, and the pattern is not among those that are left. -/
theorem read_of_dropping (sound : Sound config system trim) {pattern : Pattern} {stage : Stage}
    (drops : trim.dropping = some (pattern, stage)) :
    ∃ candidates, trim.candidates = some candidates ∧ candidates.Nodup ∧ pattern ∉ candidates := by
  cases read : trim.candidates with
  | none => exact absurd ((sound.unread read).symm.trans drops) (by simp)
  | some candidates =>
    obtain ⟨nodup, apart⟩ := sound.distinct candidates read
    exact ⟨candidates, rfl, nodup, apart pattern stage drops⟩

omit [DecidableEq Pattern] in
/-- A side could not be dropped: the pass leaves the pattern and goes on with its list. -/
theorem giveUp (sound : Sound config system trim) {pattern : Pattern} {stage : Stage}
    (drops : trim.dropping = some (pattern, stage)) (notMark : stage ≠ .mark) :
    Sound config { system with trim := some { trim with dropping := none } } { trim with dropping := none } := by
  obtain ⟨candidates, read, nodup, -⟩ := sound.read_of_dropping drops
  refine ⟨?_, fun _ => rfl, ?_, sound.counted, fun _ => sound.settled fun other marks => ?_,
    fun _ _ same => absurd same (by simp)⟩
  · rintro other (candidate | ⟨stage', same⟩)
    · exact sound.standing other (Or.inl candidate)
    · cases same
  · intro candidates' read'
    obtain rfl := Option.some.inj (read.symm.trans read')
    exact ⟨nodup, fun _ _ same => absurd same (by simp)⟩
  · obtain ⟨-, rfl⟩ := Prod.mk.inj (Option.some.inj (drops.symm.trans marks))
    exact notMark rfl

/-- The second side is gone: the number of indexes fell by one at most. -/
theorem dropCapped (sound : Sound config system trim) {pattern : Pattern}
    (drops : trim.dropping = some (pattern, .snapshotAccounts)) :
    Sound config
      { system with
        indexed := system.indexed.erase pattern
        trim := some { trim with dropping := some (pattern, .mark) } }
      { trim with dropping := some (pattern, .mark) } := by
  obtain ⟨candidates, read, nodup, apart⟩ := sound.read_of_dropping drops
  refine ⟨?_, fun unread => absurd (read.symm.trans unread) (by simp), ?_, ?_, fun unmarked => ?_, ?_⟩
  · rintro other (candidate | ⟨stage, same⟩)
    · exact sound.standing other (Or.inl candidate)
    · obtain ⟨rfl, -⟩ := Prod.mk.inj (Option.some.inj same)
      exact sound.standing pattern (Or.inr ⟨_, drops⟩)
  · intro candidates' read'
    obtain rfl := Option.some.inj (read.symm.trans read')
    refine ⟨nodup, fun other stage same => ?_⟩
    obtain ⟨rfl, -⟩ := Prod.mk.inj (Option.some.inj same)
    exact apart
  · have before : trim.count ≤ system.tableIndexes := by
      refine sound.settled fun other marks => ?_
      exact absurd (drops.symm.trans marks) (by simp)
    exact before.trans (tableIndexes_erase pattern)
  · exact absurd rfl (unmarked pattern)
  · intro other stage same notMark
    obtain ⟨-, rfl⟩ := Prod.mk.inj (Option.some.inj same)
    exact absurd rfl notMark

omit [DecidableEq Pattern] in
/-- The pair is gone; its row may have been marked, and the pass counts one less. -/
theorem markEvicted (sound : Sound config system trim) {pattern : Pattern}
    (drops : trim.dropping = some (pattern, .mark)) {rows : Pattern → Option PatternTimes}
    (others : ∀ other, other ≠ pattern → rows other = system.rows other) :
    Sound config
      { system with rows, trim := some { trim with count := trim.count - 1, dropping := none } }
      { trim with count := trim.count - 1, dropping := none } := by
  obtain ⟨candidates, read, nodup, apart⟩ := sound.read_of_dropping drops
  have counted := sound.counted
  have less : trim.count - 1 ≤ system.tableIndexes := by omega
  refine ⟨?_, fun _ => rfl, ?_, by change trim.count - 1 ≤ system.tableIndexes + 1; omega, fun _ => less, ?_⟩
  · rintro other (⟨candidates', read', member⟩ | ⟨stage, same⟩)
    · obtain rfl := Option.some.inj (read.symm.trans read')
      change ∃ row, rows other = some row ∧ _
      rw [others other fun equal => apart (equal ▸ member)]
      exact sound.standing other (Or.inl ⟨candidates, read, member⟩)
    · cases same
  · intro candidates' read'
    obtain rfl := Option.some.inj (read.symm.trans read')
    exact ⟨nodup, fun _ _ same => absurd same (by simp)⟩
  · exact fun _ _ same => absurd same (by simp)

end Sound

namespace AllSound

omit [DecidableEq Pattern] in
theorem of_trim (runs : system.trim = some trim) (sound : Sound config system trim) : AllSound config system := by
  intro found same
  obtain rfl := Option.some.inj (runs.symm.trans same)
  exact sound

omit [DecidableEq Pattern] in
theorem new (otherIndexes : ℕ) : AllSound config (EvictionSystem.new otherIndexes : EvictionSystem Pattern) :=
  fun _ runs => absurd runs (by simp [EvictionSystem.new])

theorem dropIndex (sound : AllSound config system) {succeeds : Bool}
    (moves : system.dropIndex succeeds = some next) : AllSound config next := by
  rw [EvictionSystem.dropIndex] at moves
  split at moves
  · next count candidates pattern demanded runs =>
    have before := sound _ runs
    obtain ⟨candidates', rfl, nodup, apart⟩ := before.read_of_dropping rfl
    split at moves
    · obtain rfl := Option.some.inj moves
      refine of_trim rfl (before.advance (fun other held => ?_) ⟨nodup, fun other stage same => ?_⟩ ?_ ?_)
      · rcases held with candidate | ⟨stage, same⟩
        · exact Or.inl ⟨candidates', rfl, candidate⟩
        · obtain ⟨rfl, -⟩ := Prod.mk.inj (Option.some.inj same)
          exact Or.inr ⟨_, rfl⟩
      · obtain ⟨rfl, -⟩ := Prod.mk.inj (Option.some.inj same)
        exact apart
      · exact fun _ marks => absurd marks (by simp)
      · exact fun _ _ _ => before.above pattern .accounts rfl (by decide)
    · obtain rfl := Option.some.inj moves
      exact of_trim rfl (before.giveUp rfl (by decide))
  · next count candidates pattern demanded runs =>
    have before := sound _ runs
    split at moves
    · obtain rfl := Option.some.inj moves
      exact of_trim rfl (before.dropCapped rfl)
    · obtain rfl := Option.some.inj moves
      exact of_trim rfl (before.giveUp rfl (by decide))
  · cases moves

omit [DecidableEq Pattern] in
theorem takeCandidate (sound : AllSound config system) (moves : system.takeCandidate config = some next) :
    AllSound config next := by
  rw [EvictionSystem.takeCandidate] at moves
  split at moves
  · next count pattern candidates demanded runs =>
    have before := sound _ runs
    obtain ⟨nodup, -⟩ := before.distinct _ rfl
    obtain ⟨apart, nodup⟩ := List.nodup_cons.mp nodup
    split at moves
    · next above =>
      obtain rfl := Option.some.inj moves
      refine of_trim rfl (before.advance (fun other held => ?_) ⟨nodup, fun other stage same => ?_⟩ ?_ fun _ _ _ => above)
      · rcases held with candidate | ⟨stage, same⟩
        · exact Or.inl ⟨_, rfl, List.mem_cons_of_mem _ candidate⟩
        · obtain ⟨rfl, -⟩ := Prod.mk.inj (Option.some.inj same)
          exact Or.inl ⟨_, rfl, List.mem_cons_self⟩
      · obtain ⟨rfl, -⟩ := Prod.mk.inj (Option.some.inj same)
        exact apart
      · exact fun _ marks => absurd marks (by simp)
    · cases moves
  · cases moves

theorem markEvicted (sound : AllSound config system) {succeeds : Bool}
    (moves : system.markEvicted succeeds = some next) : AllSound config next := by
  rw [EvictionSystem.markEvicted] at moves
  split at moves
  · next count candidates pattern demanded runs =>
    have before := sound _ runs
    obtain ⟨row, found, -⟩ := before.standing pattern (Or.inr ⟨_, rfl⟩)
    simp only [found] at moves
    split at moves
    · obtain rfl := Option.some.inj moves
      exact of_trim rfl (before.markEvicted rfl fun other different => Function.update_of_ne different ..)
    · obtain rfl := Option.some.inj moves
      exact of_trim rfl (before.markEvicted rfl fun _ _ => rfl)
  · cases moves

theorem step (sound : AllSound config system) {event : EvictionEvent Pattern}
    (moves : system.step config event = some next) : AllSound config next := by
  cases event with
  | timePasses elapsed =>
    obtain rfl := Option.some.inj moves
    refine sound.quiet ⟨rfl, ?_, fun _ row found _ => ⟨row, found, .refl row⟩, le_rfl⟩
    change system.now ≤ system.now + elapsed
    omega
  | recordDemand pattern =>
    obtain rfl := Option.some.inj moves
    intro after runs
    obtain ⟨trim, before, rfl⟩ := Option.map_eq_some_iff.mp runs
    exact (sound trim before).recordDemand pattern
  | createIndex pattern =>
    obtain ⟨row, -, moves⟩ := Option.bind_eq_some_iff.mp moves
    split at moves
    · obtain rfl := Option.some.inj moves
      exact sound.quiet ⟨rfl, le_rfl, fun _ row found _ => ⟨row, found, .refl row⟩, tableIndexes_insert pattern⟩
    · cases moves
  | markCreated pattern =>
    obtain ⟨row, found, moves⟩ := Option.bind_eq_some_iff.mp moves
    split at moves
    · next candidate =>
      obtain rfl := Option.some.inj moves
      exact sound.quiet (quiet_setRow found fun isCreated => absurd (candidate.symm.trans isCreated) (by decide))
    · cases moves
  | updateSupply pattern =>
    obtain ⟨row, found, rfl⟩ := Option.map_eq_some_iff.mp moves
    exact sound.quiet (quiet_setRow found fun _ => ⟨rfl, rfl, rfl, rfl⟩)
  | regressionDrop pattern marked =>
    obtain ⟨row, -, moves⟩ := Option.bind_eq_some_iff.mp moves
    split at moves
    · next idle =>
      obtain rfl := Option.some.inj moves
      intro trim runs
      change system.trim = some trim at runs
      exact absurd (runs ▸ idle.1) (by simp)
    · cases moves
  | promoteRecovered pattern =>
    obtain ⟨row, found, moves⟩ := Option.bind_eq_some_iff.mp moves
    split at moves
    · next rejected =>
      obtain rfl := Option.some.inj moves
      exact sound.quiet (quiet_setRow found fun isCreated => absurd (rejected.symm.trans isCreated) (by decide))
    · cases moves
  | countIndexes =>
    rw [EvictionSystem.step, countIndexes] at moves
    split at moves
    · obtain rfl := Option.some.inj moves
      refine of_trim rfl ⟨?_, fun _ => rfl, ?_, ?_, fun _ => le_rfl, fun _ _ same => absurd same (by simp)⟩
      · rintro pattern (⟨_, none, -⟩ | ⟨_, none⟩)
        · cases none
        · cases none
      · exact fun _ none => absurd none (by simp)
      · exact (lt_add_one system.tableIndexes).le
    · cases moves
  | readCandidates patterns =>
    obtain ⟨trim, runs, moves⟩ := Option.bind_eq_some_iff.mp moves
    split at moves
    · next reads =>
      obtain ⟨unread, distinct, eligible⟩ := reads
      obtain rfl := Option.some.inj moves
      refine of_trim rfl ((sound trim runs).readCandidates (Option.isNone_iff_eq_none.mp unread) distinct ?_)
      intro pattern member
      have shown := List.all_eq_true.mp eligible pattern member
      obtain ⟨row, found, isEligible⟩ := (Option.any_eq_true _ _).mp shown
      exact ⟨row, found, of_decide_eq_true isEligible⟩
    · cases moves
  | takeCandidate => exact sound.takeCandidate moves
  | dropIndex succeeds => exact sound.dropIndex moves
  | markEvicted succeeds => exact sound.markEvicted moves
  | passEnds =>
    obtain rfl := Option.some.inj moves
    exact fun _ runs => absurd runs (by simp)

end AllSound

/-! ## Runs -/

abbrev EvictionRun (config : EvictionConfig) (otherIndexes : ℕ) :=
  Run (new otherIndexes : EvictionSystem Pattern) (step config) fun _ _ _ => True

/-- The pass is about to drop an index of the pair. -/
def Drops (system : EvictionSystem Pattern) (pattern : Pattern) : Prop :=
  ∃ trim stage, system.trim = some trim ∧ trim.dropping = some (pattern, stage) ∧ stage ≠ .mark

/-- A drop of the pair is due: its row is past the age grace and demand-idle, and the capped table has more
indexes than the target. -/
def DropIsDue (config : EvictionConfig) (system : EvictionSystem Pattern) (pattern : Pattern) : Prop :=
  (∃ row, system.rows pattern = some row ∧ row.PastAge config system.now ∧ row.DemandIdle config system.now) ∧
    config.target < system.tableIndexes

/-- No demand for the pattern came, since the pass read its candidates, within the idle time before now. -/
def UndemandedSinceRead (config : EvictionConfig) (system : EvictionSystem Pattern) (pattern : Pattern) : Prop :=
  ∀ trim, system.trim = some trim →
    ∀ time, (pattern, time) ∈ trim.demanded → system.now - time > config.minIdle

/-- Whenever a trim drops a pair, the pair is past its age grace and the table is above the target; it is
without demand for the idle time exactly when no demand came after the pass had read its candidates, other
than demand that the idle time has passed since. -/
theorem trim_drops_are_due_iff {otherIndexes : ℕ} {events : List (EvictionEvent Pattern)} {pattern : Pattern}
    (run : EvictionRun config otherIndexes events system) (drops : system.Drops pattern) :
    (∃ row, system.rows pattern = some row ∧ row.PastAge config system.now) ∧
      config.target < system.tableIndexes ∧
      (system.DropIsDue config pattern ↔ system.UndemandedSinceRead config pattern) := by
  have sound : AllSound config system :=
    run.stateInvariant (AllSound.new otherIndexes) fun _ _ _ _ sound _ moves => sound.step moves
  obtain ⟨trim, stage, runs, dropping, notMark⟩ := drops
  have trimSound := sound trim runs
  obtain ⟨row, found, standing⟩ := trimSound.standing pattern (Or.inr ⟨stage, dropping⟩)
  have aboveTarget : config.target < system.tableIndexes := by
    refine (trimSound.above pattern stage dropping notMark).trans_le (trimSound.settled fun other marks => ?_)
    obtain ⟨-, rfl⟩ := Prod.mk.inj (Option.some.inj (dropping.symm.trans marks))
    exact notMark rfl
  refine ⟨⟨row, found, standing.pastAge⟩, aboveTarget, ?_, fun undemanded => ?_⟩
  · rintro ⟨⟨row', found', -, idle⟩, -⟩ trim' runs'
    obtain rfl := Option.some.inj (runs.symm.trans runs')
    obtain rfl := Option.some.inj (found.symm.trans found')
    exact standing.idle_iff.mp idle
  · exact ⟨⟨row, found, standing.pastAge, standing.idle_iff.mpr (undemanded trim runs)⟩, aboveTarget⟩

/-- One index too many, and a pattern whose only demand came with its row. -/
def oneTooMany : EvictionConfig := ⟨10, 5, false, 3⟩

/-- The pair is built, and a pass lists it twenty ticks later. -/
def builtAndTaken : List (EvictionEvent Unit) :=
  [.recordDemand (), .createIndex (), .markCreated (), .timePasses 20, .countIndexes, .readCandidates [()],
    .takeCandidate]

/-- Nobody asks while the pass waits: the drop is due. -/
theorem waiting_trim_drops_an_idle_pair : ∃ events system,
    EvictionRun oneTooMany 3 events (system : EvictionSystem Unit) ∧ system.Drops () ∧
      system.DropIsDue oneTooMany () := by
  obtain ⟨last, ran, trim, runs, dropping, quiet⟩ : ∃ last,
      Run.replay (step oneTooMany) (fun _ _ _ => True) [] (new 3) (builtAndTaken ++ [.timePasses 7]) = some last ∧
      ∃ trim, last.trim = some trim ∧ trim.dropping = some ((), .accounts) ∧ trim.demanded = [] :=
    ⟨_, rfl, _, rfl, rfl, rfl⟩
  have run := Run.replayed ran
  have drops : last.Drops () := ⟨trim, .accounts, runs, dropping, by decide⟩
  refine ⟨_, last, run, drops, (trim_drops_are_due_iff run drops).2.2.mpr fun trim' runs' time demanded => ?_⟩
  obtain rfl := Option.some.inj (runs.symm.trans runs')
  rw [quiet] at demanded
  exact absurd demanded List.not_mem_nil

/-- The pattern is demanded while the pass waits, and dropped in the next statement. -/
theorem demanded_pair_is_dropped :
    ¬ ∀ (events : List (EvictionEvent Unit)) (system : EvictionSystem Unit), EvictionRun oneTooMany 3 events system →
      system.Drops () → system.DropIsDue oneTooMany () := by
  intro always
  obtain ⟨last, ran, trim, runs, dropping, row, found, busy⟩ : ∃ last,
      Run.replay (step oneTooMany) (fun _ _ _ => True) [] (new 3) (builtAndTaken ++ [.recordDemand ()]) = some last ∧
      ∃ trim, last.trim = some trim ∧ trim.dropping = some ((), .accounts) ∧
      ∃ row, last.rows () = some row ∧ ¬ row.DemandIdle oneTooMany last.now :=
    ⟨_, rfl, _, rfl, rfl, _, rfl, by decide⟩
  obtain ⟨⟨row', found', -, idle⟩, -⟩ :=
    always _ last (Run.replayed ran) ⟨trim, .accounts, runs, dropping, by decide⟩
  obtain rfl := Option.some.inj (found.symm.trans found')
  exact busy idle

end EvictionSystem

end Cloudbreak.Model.QueryTracker
