import Cloudbreak.Model.Health.ServiceHealth

/-! # The health flag and eviction trims

The query tracker writes the same flag as the indexer: unhealthy before a trim and healthy after it, with
no regard to the indexer's reasons. The writes of both services are applied here in the order in which they
were issued.
-/

namespace Cloudbreak.Model.Health

/-- The indexer's reasons, the outstanding writes of both services, and whether a trim is under way. -/
structure SharedHealth where
  health : ServiceHealth
  trimming : Bool

inductive SharedHealthEvent where
  | addReason (reason : HealthReason)
  | removeReason (reason : HealthReason)
  | trimStarts
  | trimEnds
  | writeApplied
deriving DecidableEq

namespace SharedHealth

def new (db : Database) : SharedHealth := ⟨.new db, false⟩

/-- A write that the tracker issues. -/
def issue (shared : SharedHealth) (healthy : Bool) : ServiceHealth :=
  { shared.health with updates := shared.health.updates ++ [healthy] }

/-- The tracker trims one pass at a time. -/
def step (shared : SharedHealth) : SharedHealthEvent → Option SharedHealth
  | .addReason reason => some { shared with health := shared.health.addReason reason }
  | .removeReason reason => some { shared with health := shared.health.removeReason reason }
  | .trimStarts => if shared.trimming then none else some ⟨shared.issue false, true⟩
  | .trimEnds => if shared.trimming then some ⟨shared.issue true, false⟩ else none
  | .writeApplied =>
    shared.health.updates.head?.map fun healthy =>
      { shared with health := { shared.health with
        updates := shared.health.updates.tail
        db := shared.health.db.updateServiceHealth healthy shared.health.db.present } }

/-- What the flag should say. -/
def verdict (shared : SharedHealth) : Bool := shared.health.isHealthy && !shared.trimming

end SharedHealth

end Cloudbreak.Model.Health
