import Kademlia.Endpoint
import Kademlia.Id.Basic
import Kademlia.Time

/-!
# Kademlia.Config

The settings of a node and their defaults, and the constants of the network.
-/

namespace Kademlia

/-- The periods of record keeping and upkeep. -/
structure Timings where
  /-- How long a stored record lives. -/
  expire : Duration := 86400000
  /-- After how long an unused bucket is looked through. -/
  refresh : Duration := 3600000
  /-- The period in which stored records are passed on. -/
  replicate : Duration := 3600000
  /-- After how long a published key is published again. -/
  republish : Duration := 86400000
  /-- How often upkeep looks for what is due. -/
  interval : Duration := 60000
deriving DecidableEq

/-- The port that nodes use by default. -/
def defaultPort : UInt16 := 4444

/-- The nodes to start from by default. -/
def defaultBootstrap : List String :=
  ["lbrynet1.lbry.io:4444", "lbrynet2.lbry.io:4444", "lbrynet3.lbry.io:4444"]

/-- The settings of a node. -/
structure Config where
  address : Endpoint := ⟨.unspecified, defaultPort⟩
  /-- The nodes to start from, as host and port. -/
  bootstrap : List String := defaultBootstrap
  /-- The node's id; a random one by default. -/
  id : Option Id := none
  /-- The port announced with published keys; the local one by default. -/
  peerPort : Option UInt16 := none
  /-- How long each sending of a request is waited for. -/
  requestTimeout : Duration := 5000
  maxTries : Nat := 3
  timings : Timings := {}
deriving DecidableEq

/-- The greatest number of bytes of a datagram that is read; what exceeds it is cut off. -/
def maxDatagram : Nat := 8192

/-- How many nodes a lookup asks at a time. -/
def lookupWidth : Nat := 3

end Kademlia
