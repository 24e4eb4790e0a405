import Mathlib.Data.List.Basic
import Mathlib.Logic.Function.Basic

/-! # The lifecycle of an index pair

The creation loop builds a pair one side at a time and marks the pattern created in a third statement; a
trim or a regression drop takes the sides away one at a time and marks it in a third statement. Each
statement can fail alone. Both tasks act on lists that they read earlier, and demand and rejection recovery
change the status in between.
-/

namespace Cloudbreak.Model.QueryTracker

inductive PatternStatus
  | candidate
  | created
  | evicted
  | rejected
deriving DecidableEq, Repr

/-- The two tables of a pair, in the order in which both tasks go through them. -/
inductive IndexTable
  | accounts
  | snapshotAccounts
deriving DecidableEq, Repr

/-- The statement that a task issues next for its pattern. -/
inductive Stage
  | accounts
  | snapshotAccounts
  | mark
deriving DecidableEq, Repr

/-- An idle trim marks its patterns evicted, a regression drop marks them rejected. -/
inductive DropKind
  | trim
  | regression
deriving DecidableEq, Repr

def DropKind.mark : DropKind → PatternStatus
  | .trim => .evicted
  | .regression => .rejected

/-- The table of patterns, the physical indexes, the pattern that the creation loop builds, the patterns
that the eviction task has listed, and the one that it drops. -/
structure Lifecycle (Pattern : Type) where
  status : Pattern → PatternStatus
  indexes : Pattern → IndexTable → Bool
  creating : Option (Pattern × Stage)
  kind : DropKind
  listed : List Pattern
  dropping : Option (Pattern × Stage)

inductive LifecycleEvent (Pattern : Type)
  | recordDemand (pattern : Pattern)
  | promoteRecovered (pattern : Pattern)
  | chooseCandidate (pattern : Pattern)
  | declineCandidate
  | createIndex (succeeds : Bool)
  | markCreated (succeeds : Bool)
  | listDrops (kind : DropKind) (patterns : List Pattern)
  | startDrop
  | skipDrop
  | stopDrops
  | dropIndex (succeeds : Bool)
  | markDropped (succeeds : Bool)
deriving DecidableEq

namespace Lifecycle

variable {Pattern : Type} [DecidableEq Pattern]

/-- New rows are candidates; an index may be left over from an earlier attempt. -/
def new (indexes : Pattern → IndexTable → Bool) : Lifecycle Pattern :=
  { status := fun _ => .candidate, indexes, creating := none, kind := .trim, listed := [], dropping := none }

def setStatus (system : Lifecycle Pattern) (pattern : Pattern) (status : PatternStatus) : Lifecycle Pattern :=
  { system with status := Function.update system.status pattern status }

def setIndex (system : Lifecycle Pattern) (pattern : Pattern) (table : IndexTable) (present : Bool) :
    Lifecycle Pattern :=
  { system with
    indexes := Function.update system.indexes pattern (Function.update (system.indexes pattern) table present) }

/-- `CASE WHEN status = 'evicted' THEN 'candidate' ELSE status END`. -/
def recordDemand (system : Lifecycle Pattern) (pattern : Pattern) : Lifecycle Pattern :=
  if system.status pattern = .evicted then system.setStatus pattern .candidate else system

/-- `UPDATE ... SET status = 'candidate' WHERE status = 'rejected'`, for one of its rows. -/
def promoteRecovered (system : Lifecycle Pattern) (pattern : Pattern) : Lifecycle Pattern :=
  if system.status pattern = .rejected then system.setStatus pattern .candidate else system

/-- One side of `create_pair`; a failure leaves the pattern a candidate. -/
def createIndex (system : Lifecycle Pattern) (succeeds : Bool) : Option (Lifecycle Pattern) :=
  match system.creating with
  | some (pattern, .accounts) =>
    if succeeds then
      some { system.setIndex pattern .accounts true with creating := some (pattern, .snapshotAccounts) }
    else some { system with creating := none }
  | some (pattern, .snapshotAccounts) =>
    if succeeds then some { system.setIndex pattern .snapshotAccounts true with creating := some (pattern, .mark) }
    else some { system with creating := none }
  | _ => none

def markCreated (system : Lifecycle Pattern) (succeeds : Bool) : Option (Lifecycle Pattern) :=
  match system.creating with
  | some (pattern, .mark) =>
    if succeeds then some { system.setStatus pattern .created with creating := none }
    else some { system with creating := none }
  | _ => none

/-- One side of `drop_pair`; a failure ends the drop of this pattern. -/
def dropIndex (system : Lifecycle Pattern) (succeeds : Bool) : Option (Lifecycle Pattern) :=
  match system.dropping with
  | some (pattern, .accounts) =>
    if succeeds then
      some { system.setIndex pattern .accounts false with dropping := some (pattern, .snapshotAccounts) }
    else some { system with dropping := none }
  | some (pattern, .snapshotAccounts) =>
    if succeeds then some { system.setIndex pattern .snapshotAccounts false with dropping := some (pattern, .mark) }
    else some { system with dropping := none }
  | _ => none

/-- `mark_evicted` or `mark_rejected`; a failure is only logged. -/
def markDropped (system : Lifecycle Pattern) (succeeds : Bool) : Option (Lifecycle Pattern) :=
  match system.dropping with
  | some (pattern, .mark) =>
    if succeeds then some { system.setStatus pattern system.kind.mark with dropping := none }
    else some { system with dropping := none }
  | _ => none

/-- The lists that the tasks read hold candidates and created patterns respectively. -/
def step (system : Lifecycle Pattern) : LifecycleEvent Pattern → Option (Lifecycle Pattern)
  | .recordDemand pattern => some (system.recordDemand pattern)
  | .promoteRecovered pattern => some (system.promoteRecovered pattern)
  | .chooseCandidate pattern =>
    if system.creating = none ∧ system.status pattern = .candidate then
      some { system with creating := some (pattern, .accounts) }
    else none
  | .declineCandidate => some { system with creating := system.creating.filter fun task => task.2 ≠ .accounts }
  | .createIndex succeeds => system.createIndex succeeds
  | .markCreated succeeds => system.markCreated succeeds
  | .listDrops kind patterns =>
    if system.listed = [] ∧ system.dropping = none ∧ patterns.Nodup ∧
        patterns.all (fun pattern => system.status pattern = .created) then
      some { system with kind, listed := patterns }
    else none
  | .startDrop =>
    match system.listed, system.dropping with
    | pattern :: listed, none => some { system with listed, dropping := some (pattern, .accounts) }
    | _, _ => none
  | .skipDrop => some { system with listed := system.listed.tail }
  | .stopDrops => some { system with listed := [] }
  | .dropIndex succeeds => system.dropIndex succeeds
  | .markDropped succeeds => system.markDropped succeeds

/-- Whether a task works on the pattern. -/
def InProgress (system : Lifecycle Pattern) (pattern : Pattern) : Prop :=
  (∃ stage, system.creating = some (pattern, stage)) ∨ ∃ stage, system.dropping = some (pattern, stage)

end Lifecycle

end Cloudbreak.Model.QueryTracker
