import Kademlia.Config
import Kademlia.Draws
import Kademlia.Ledger
import Kademlia.Message.Encode
import Kademlia.RecordStore
import Kademlia.RoutingTable

/-!
# Kademlia.Node.Basic

The state of a node and the start of a request. A node does no input or output: each transition
takes the instant at which it happens and returns the datagrams to send (`Outgoing`), and whoever
runs the node tells it when one could not be sent.

Two sums may go beyond what a host can reckon: how long a request that was sent is waited for in all
(`Ledger.maxWait?`), and when a record expires (`RecordStore.expiry?`). A node that cannot reckon
one of them halts in the middle of what it does. A transition is that of a node which comes to the
end of it; `startRequest` and `startProbe` leave the first sum, and what stores a record the second,
to whoever runs the node (`Node.overruns`, `Node.Deed.overruns`).
-/

namespace Kademlia

/-- A ping of the stalest contact of a full bucket that is under way. -/
structure Probe where
  contact : Contact
  handle : Handle
deriving DecidableEq

/-- A node. -/
structure Node where
  id : Id
  config : Config
  /-- The local address that the node is bound to. -/
  address : Endpoint
  table : RoutingTable
  /-- The publishers that the node remembers. -/
  records : RecordStore
  /-- The requests that the node has sent. -/
  ledger : Ledger
  /-- The pings of stalest contacts that are under way. -/
  probes : List Probe
  /-- The random numbers that the node has still to draw. -/
  draws : Draws
deriving DecidableEq

/-- A request that has been registered and is about to be sent. -/
structure OpenedRequest where
  handle : Handle
  transaction : TransactionId
  datagram : Datagram
deriving DecidableEq

/-- What a transition has to send. -/
inductive Outgoing where
  | answer (datagram : Datagram)
  | retry (datagram : Datagram)
  /-- A ping of the stalest contact of a full bucket. -/
  | probe (contact : Contact) (opened : OpenedRequest)
deriving DecidableEq

/-- What to send. -/
def Outgoing.datagram : Outgoing → Datagram
  | .answer datagram | .retry datagram => datagram
  | .probe _ opened => opened.datagram

namespace Node

/-- A node that is bound to an address and knows no other. The id is drawn if it is not set. -/
def new (config : Config) (address : Endpoint) (draws : Draws) (now : Time) : Node :=
  let (id, draws) :=
    match config.id with
    | some id => (id, draws)
    | none => draws.nextId
  { id, config, address, draws
    table := .new id now
    records := .new config.timings.expire config.timings.republish
    ledger := .new config.requestTimeout config.maxTries
    probes := [] }

/-- The port that the node announces with the keys it publishes. -/
def peerPort (node : Node) : UInt16 := node.config.peerPort.getD node.address.port

/-- The node as a publisher. -/
def asPublisher (node : Node) : Contact := ⟨node.id, node.address.ip, node.peerPort⟩

/-- The number of requests that have not been answered. -/
def inflight (node : Node) : Nat := node.ledger.size

/-- The packet of a message of the node. -/
def packet (node : Node) (transaction : TransactionId) (body : Body) : Bytes :=
  Message.encode ⟨transaction, node.id, body⟩

/-! ### Requests -/

/-- Registers a request under a fresh token. A node that was shut down sends none. -/
def startRequest (node : Node) (destination : Endpoint) (asked : Request) (now : Time) :
    Except RequestError (Node × OpenedRequest) :=
  if node.ledger.closed then .error .timeout
  else
    match node.draws.fresh node.ledger.transactions with
    | none => .error .timeout
    | some (transaction, draws) =>
      let datagram := ⟨destination, node.packet transaction (.request asked)⟩
      match node.ledger.register transaction datagram now with
      | none => .error .timeout
      | some (ledger, handle) =>
        .ok ({ node with ledger, draws }, { handle, transaction, datagram })

/-- Forgets a request that could not be sent. -/
def withdraw (node : Node) (opened : OpenedRequest) : Node :=
  { node with ledger := node.ledger.withdraw opened.transaction }

/-- Hands out the outcome of a request, if there is one. -/
def poll (node : Node) (handle : Handle) : Node × Option Outcome :=
  let (ledger, outcome) := node.ledger.poll handle
  ({ node with ledger }, outcome)

end Node

end Kademlia
