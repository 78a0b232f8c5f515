import Kademlia.Config
import Kademlia.Draws
import Kademlia.RecordStore
import Kademlia.RoutingTable

/-!
# Kademlia.Upkeep

What a node has to do by itself from time to time: look through buckets that were not used, pass on
the records that it keeps, and publish its own keys again. The keys that are due come in the order
in which the store has them, and that order means nothing (`Keyed`).
-/

namespace Kademlia

/-- The state of the upkeep of a node. -/
structure Upkeep where
  timings : Timings
  /-- When records were passed on last. -/
  lastReplicate : Time
deriving DecidableEq

/-- What is due at an instant. -/
structure Duties where
  /-- The node knows nobody and has to start again from its bootstrap nodes. -/
  rejoin : Bool
  /-- An id to look up in each bucket that was not used. -/
  refresh : List Id
  /-- The keys whose records are to be passed on. -/
  replicate : List Id
  republish : List Id
deriving DecidableEq

namespace Upkeep

/-- The upkeep of a node that starts. -/
def new (timings : Timings) (now : Time) : Upkeep := ⟨timings, now⟩

/-- Are records to be passed on? -/
def replicates (upkeep : Upkeep) (now : Time) : Bool :=
  upkeep.timings.replicate ≤ now - upkeep.lastReplicate

/-- The ids to look up: a random one of each bucket that was not used. -/
def refreshTargets (upkeep : Upkeep) (table : RoutingTable) (draws : Draws) (now : Time) :
    List Id × Draws :=
  if table.isEmpty then ([], draws)
  else draws.idsFor table.idInBucket (table.staleBuckets upkeep.timings.refresh now)

/-- Finds out what is due. The period of passing on records starts anew when it is over. -/
def decide (upkeep : Upkeep) (table : RoutingTable) (records : RecordStore) (draws : Draws)
    (now : Time) : Upkeep × Draws × Duties :=
  let (refresh, drawn) := upkeep.refreshTargets table draws now
  ({ upkeep with lastReplicate := if upkeep.replicates now then now else upkeep.lastReplicate },
   drawn,
   { rejoin := table.isEmpty && !(table.staleBuckets upkeep.timings.refresh now).isEmpty
     refresh
     replicate := if upkeep.replicates now then records.keys else []
     republish := records.due now })

end Upkeep

end Kademlia
