import Kademlia.Message.Decode
import Kademlia.Node.Probes

/-!
# Kademlia.Node.Receive

What a node does when a datagram arrives, when time passes and when it is shut down.

A request is answered and its sender noted as a contact, in this order, even if the request cannot
be served. An answer counts only if it belongs to an unanswered request; its sender is then noted
as a contact too. Anything else changes nothing.
-/

namespace Kademlia

/-- What a node reads of a datagram on its socket: as many bytes as it has room for, if the sender
can be answered at all. -/
def readDatagram? (packet : Bytes) : SocketAddress → Option (Bytes × Endpoint)
  | .v4 source => if source.port = 0 then none else some (packet.take maxDatagram, source)
  | .v6 => none

/-- The name of the error that answers a store under an empty key. -/
def RemoteFault.valueError : String := "ValueError"

/-- The error that answers a store under an empty key. -/
def RemoteFault.emptyKey : RemoteFault :=
  ⟨RemoteFault.valueError, [Utf8.encode "blob hash is empty"]⟩

namespace Node

/-- The closest contacts that the node tells others of. -/
def closestContacts (node : Node) (target : Id) : List Contact :=
  node.table.findClosest target Bucket.capacity

/-- The publishers of a key that the node tells others of: those whose address others can use. -/
def publishers (node : Node) (key : Id) (now : Time) : List Contact :=
  (node.records.get key now).filter (!·.address.ip.isUnspecified)

/-- What the node answers when it is asked for a value: its publishers, or the closest contacts if
there are none. -/
def findValueResponse (node : Node) (key : Id) (now : Time) : Response :=
  match node.publishers key now with
  | [] => .nodes (node.closestContacts key)
  | publishers => .values key publishers

/-- Serves a request that came from `source`. A publisher is taken to be reached at the address
that the request came from. -/
def serve (node : Node) (source : Endpoint) (asked : Request) (now : Time) :
    Node × Option Body :=
  match asked with
  | .ping => (node, some (.response .pong))
  | .store key publisher port =>
    ({ node with records := node.records.insert key ⟨publisher, source.ip, port⟩ now },
      some (.response .stored))
  | .findNode target => (node, some (.response (.nodes (node.closestContacts target))))
  | .findValue key => (node, some (.response (node.findValueResponse key now)))
  | .invalid _ .emptyKey => (node, some (.fault .emptyKey))
  | .invalid _ _ => (node, none)

/-- Answers a request and notes its sender. -/
def receiveRequest (node : Node) (message : Message) (source : Endpoint) (asked : Request)
    (now : Time) : Node × List Outgoing :=
  -- The answer is made first, so a stranger is not told of itself.
  let (node, body) := node.serve source asked now
  let answers := body.toList.map fun body =>
    Outgoing.answer ⟨source, node.packet message.transaction body⟩
  let (node, probes) := node.addContact ⟨message.sender, source⟩ now
  (node, answers ++ probes)

/-- Takes in an answer and notes its sender, if the answer belongs to an unanswered request. -/
def receiveAnswer (node : Node) (message : Message) (source : Endpoint) (now : Time) :
    Node × List Outgoing :=
  match node.ledger.resolve? message source with
  -- A sender that answers nothing is not noted: its address may be forged.
  | none => (node, [])
  | some ledger => { node with ledger }.addContact ⟨message.sender, source⟩ now

/-- Takes in a message. One that bears the node's own id is ignored. -/
def receiveMessage (node : Node) (message : Message) (source : Endpoint) (now : Time) :
    Node × List Outgoing :=
  if message.sender = node.id then (node, [])
  else
    match message.body with
    | .request asked => node.receiveRequest message source asked now
    | _ => node.receiveAnswer message source now

/-- Takes in a packet from `source`. One that is not a message is ignored. -/
def receive (node : Node) (packet : Bytes) (source : Endpoint) (now : Time) :
    Node × List Outgoing :=
  match Message.decode packet with
  | .error _ => (node, [])
  | .ok message => node.receiveMessage message source now

/-- Does the packet have the node store a record whose end the clock does not get to? -/
def overruns (node : Node) (packet : Bytes) (now : Time) : Bool :=
  match Message.decode packet with
  | .ok ⟨_, sender, .request (.store ..)⟩ =>
    sender ≠ node.id && (node.records.expiry? now).isNone
  | _ => false

/-- Lets time pass: requests are sent again or given up, and pings that have an outcome are
concluded. -/
def tick (node : Node) (now : Time) : Node × List Outgoing :=
  let (ledger, retries) := node.ledger.tick now
  ({ node with ledger }.reviewProbes, retries.map .retry)

/-- Shuts the node down: no request is waited for any more. -/
def shutdown (node : Node) : Node := { node with ledger := node.ledger.close, probes := [] }

end Node

end Kademlia
