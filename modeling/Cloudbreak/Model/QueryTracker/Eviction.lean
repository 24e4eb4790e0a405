import Mathlib.Data.Finset.Card
import Cloudbreak.Model.QueryTracker.Lifecycle

/-! # Idle trims

A pass of the eviction task counts the indexes of the capped table once and reads the eligible patterns
once. It then goes through that list, may wait for minutes before each drop, and counts down from its own
number. Demand is recorded and pairs are built meanwhile. The fill target is the integer that the pass
computes from the configuration; times are points of the database clock.
-/

namespace Cloudbreak.Model.QueryTracker

structure EvictionConfig where
  minIdle : ℤ
  minAge : ℤ
  useSupply : Bool
  target : ℤ

/-- The columns of a row that the eligibility reads. -/
structure PatternTimes where
  status : PatternStatus
  firstSeenAt : ℤ
  createdAt : Option ℤ
  lastDemandAt : Option ℤ
  lastSeenUsed : Option ℤ
deriving DecidableEq, Repr

namespace PatternTimes

/-- `now() - COALESCE(created_at, first_seen_at) > min_age`. -/
def PastAge (config : EvictionConfig) (now : ℤ) (row : PatternTimes) : Prop :=
  now - row.createdAt.getD row.firstSeenAt > config.minAge

/-- `now() - COALESCE(last_demand_at, first_seen_at) > min_idle`. -/
def DemandIdle (config : EvictionConfig) (now : ℤ) (row : PatternTimes) : Prop :=
  now - row.lastDemandAt.getD row.firstSeenAt > config.minIdle

/-- `now() - COALESCE(last_seen_used, created_at, first_seen_at) > min_idle`. -/
def SupplyIdle (config : EvictionConfig) (now : ℤ) (row : PatternTimes) : Prop :=
  now - (row.lastSeenUsed.or row.createdAt).getD row.firstSeenAt > config.minIdle

/-- `eviction_gate`. -/
def Eligible (config : EvictionConfig) (now : ℤ) (row : PatternTimes) : Prop :=
  row.status = .created ∧ row.PastAge config now ∧ (config.useSupply = true → row.SupplyIdle config now) ∧
    row.DemandIdle config now

instance (config : EvictionConfig) (now : ℤ) (row : PatternTimes) : Decidable (row.PastAge config now) :=
  inferInstanceAs (Decidable (now - row.createdAt.getD row.firstSeenAt > config.minAge))

instance (config : EvictionConfig) (now : ℤ) (row : PatternTimes) : Decidable (row.DemandIdle config now) :=
  inferInstanceAs (Decidable (now - row.lastDemandAt.getD row.firstSeenAt > config.minIdle))

instance (config : EvictionConfig) (now : ℤ) (row : PatternTimes) : Decidable (row.SupplyIdle config now) :=
  inferInstanceAs (Decidable (now - (row.lastSeenUsed.or row.createdAt).getD row.firstSeenAt > config.minIdle))

instance (config : EvictionConfig) (now : ℤ) (row : PatternTimes) : Decidable (row.Eligible config now) :=
  inferInstanceAs (Decidable (_ ∧ _ ∧ (_ → _) ∧ _))

end PatternTimes

/-- A pass that has counted: its own count, its candidates once they are read, and the pair it drops. The
last field is kept for the statements only: the demand recorded since the candidates were read. -/
structure Trim (Pattern : Type) where
  count : ℤ
  candidates : Option (List Pattern)
  dropping : Option (Pattern × Stage)
  demanded : List (Pattern × ℤ)

def Trim.recordDemand {Pattern : Type} (now : ℤ) (pattern : Pattern) (trim : Trim Pattern) : Trim Pattern :=
  { trim with demanded := trim.demanded ++ [(pattern, now)] }

/-- The clock, the table of patterns, the indexes on the capped table, and the pass under way. -/
structure EvictionSystem (Pattern : Type) where
  now : ℤ
  rows : Pattern → Option PatternTimes
  otherIndexes : ℕ
  indexed : Finset Pattern
  trim : Option (Trim Pattern)

inductive EvictionEvent (Pattern : Type)
  | timePasses (elapsed : ℕ)
  | recordDemand (pattern : Pattern)
  | createIndex (pattern : Pattern)
  | markCreated (pattern : Pattern)
  | updateSupply (pattern : Pattern)
  | regressionDrop (pattern : Pattern) (marked : Bool)
  | promoteRecovered (pattern : Pattern)
  | countIndexes
  | readCandidates (patterns : List Pattern)
  | takeCandidate
  | dropIndex (succeeds : Bool)
  | markEvicted (succeeds : Bool)
  | passEnds
deriving DecidableEq

namespace EvictionSystem

variable {Pattern : Type} [DecidableEq Pattern]

def new (otherIndexes : ℕ) : EvictionSystem Pattern :=
  { now := 0, rows := fun _ => none, otherIndexes, indexed := ∅, trim := none }

/-- `count_table_indexes` of the capped table. -/
def tableIndexes (system : EvictionSystem Pattern) : ℤ := system.otherIndexes + system.indexed.card

def setRow (system : EvictionSystem Pattern) (pattern : Pattern) (row : PatternTimes) : EvictionSystem Pattern :=
  { system with rows := Function.update system.rows pattern (some row) }

/-- The upsert of `record_demand`: a new row is a candidate, an evicted one becomes a candidate again. -/
def demandedRow (now : ℤ) : Option PatternTimes → PatternTimes
  | none => ⟨.candidate, now, none, some now, none⟩
  | some row =>
    { row with
      status := if row.status = .evicted then .candidate else row.status
      lastDemandAt := some now }

def recordDemand (system : EvictionSystem Pattern) (pattern : Pattern) : EvictionSystem Pattern :=
  { system.setRow pattern (demandedRow system.now (system.rows pattern)) with
    trim := system.trim.map (Trim.recordDemand system.now pattern) }

/-- The creation loop builds pairs of candidates. -/
def createIndex (system : EvictionSystem Pattern) (pattern : Pattern) : Option (EvictionSystem Pattern) :=
  (system.rows pattern).bind fun row =>
    if row.status = .candidate then some { system with indexed := insert pattern system.indexed } else none

/-- The creation loop holds a candidate until it marks it. -/
def markCreated (system : EvictionSystem Pattern) (pattern : Pattern) : Option (EvictionSystem Pattern) :=
  (system.rows pattern).bind fun row =>
    if row.status = .candidate then
      some (system.setRow pattern
        { row with status := .created, createdAt := some system.now, lastSeenUsed := some system.now })
    else none

/-- A scan of the index was seen. -/
def updateSupply (system : EvictionSystem Pattern) (pattern : Pattern) : Option (EvictionSystem Pattern) :=
  (system.rows pattern).map fun row => system.setRow pattern { row with lastSeenUsed := some system.now }

/-- The regression guard runs before the pass counts; its mark may fail. -/
def regressionDrop (system : EvictionSystem Pattern) (pattern : Pattern) (marked : Bool) :
    Option (EvictionSystem Pattern) :=
  (system.rows pattern).bind fun row =>
    if system.trim.isNone ∧ row.status = .created then
      some { system.setRow pattern { row with status := if marked then .rejected else row.status } with
        indexed := system.indexed.erase pattern }
    else none

/-- `UPDATE ... SET status = 'candidate' WHERE status = 'rejected'`, for one of its rows. -/
def promoteRecovered (system : EvictionSystem Pattern) (pattern : Pattern) : Option (EvictionSystem Pattern) :=
  (system.rows pattern).bind fun row =>
    if row.status = .rejected then some (system.setRow pattern { row with status := .candidate }) else none

def countIndexes (config : EvictionConfig) (system : EvictionSystem Pattern) : Option (EvictionSystem Pattern) :=
  if system.trim.isNone ∧ config.target < system.tableIndexes then
    some { system with trim := some ⟨system.tableIndexes, none, none, []⟩ }
  else none

/-- The candidates are eligible rows, each once; their order is that of a score. -/
def readCandidates (config : EvictionConfig) (system : EvictionSystem Pattern) (patterns : List Pattern) :
    Option (EvictionSystem Pattern) :=
  system.trim.bind fun trim =>
    if trim.candidates.isNone ∧ patterns.Nodup ∧
        patterns.all (fun pattern => (system.rows pattern).any fun row => row.Eligible config system.now) then
      some { system with trim := some { trim with candidates := some patterns, demanded := [] } }
    else none

/-- The next candidate is taken only while the pass's own count is above the target. -/
def takeCandidate (config : EvictionConfig) (system : EvictionSystem Pattern) : Option (EvictionSystem Pattern) :=
  match system.trim with
  | some ⟨count, some (pattern :: candidates), none, demanded⟩ =>
    if config.target < count then
      some { system with trim := some ⟨count, some candidates, some (pattern, .accounts), demanded⟩ }
    else none
  | _ => none

/-- One side of the pair. The second one is the capped table's, where the index may be missing already. -/
def dropIndex (system : EvictionSystem Pattern) (succeeds : Bool) : Option (EvictionSystem Pattern) :=
  match system.trim with
  | some ⟨count, candidates, some (pattern, .accounts), demanded⟩ =>
    if succeeds then
      some { system with trim := some ⟨count, candidates, some (pattern, .snapshotAccounts), demanded⟩ }
    else some { system with trim := some ⟨count, candidates, none, demanded⟩ }
  | some ⟨count, candidates, some (pattern, .snapshotAccounts), demanded⟩ =>
    if succeeds then
      some { system with
        indexed := system.indexed.erase pattern
        trim := some ⟨count, candidates, some (pattern, .mark), demanded⟩ }
    else some { system with trim := some ⟨count, candidates, none, demanded⟩ }
  | _ => none

/-- A failed mark is only logged, and the count goes down either way. -/
def markEvicted (system : EvictionSystem Pattern) (succeeds : Bool) : Option (EvictionSystem Pattern) :=
  match system.trim with
  | some ⟨count, candidates, some (pattern, .mark), demanded⟩ =>
    let system := { system with trim := some ⟨count - 1, candidates, none, demanded⟩ }
    match system.rows pattern with
    | some row => some (if succeeds then system.setRow pattern { row with status := .evicted } else system)
    | none => some system
  | _ => none

def step (config : EvictionConfig) (system : EvictionSystem Pattern) :
    EvictionEvent Pattern → Option (EvictionSystem Pattern)
  | .timePasses elapsed => some { system with now := system.now + elapsed }
  | .recordDemand pattern => some (system.recordDemand pattern)
  | .createIndex pattern => system.createIndex pattern
  | .markCreated pattern => system.markCreated pattern
  | .updateSupply pattern => system.updateSupply pattern
  | .regressionDrop pattern marked => system.regressionDrop pattern marked
  | .promoteRecovered pattern => system.promoteRecovered pattern
  | .countIndexes => system.countIndexes config
  | .readCandidates patterns => system.readCandidates config patterns
  | .takeCandidate => system.takeCandidate config
  | .dropIndex succeeds => system.dropIndex succeeds
  | .markEvicted succeeds => system.markEvicted succeeds
  | .passEnds => some { system with trim := none }

end EvictionSystem

end Cloudbreak.Model.QueryTracker
