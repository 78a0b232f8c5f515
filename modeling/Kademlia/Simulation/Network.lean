import Kademlia.Ledger
import Kademlia.Message.Decode
import Kademlia.Message.Encode

/-!
# Kademlia.Simulation.Network

A network of scripted peers, to run a node against. A peer answers each request that reaches it
according to its script; some peers cannot be reached, and some lose their first requests.
-/

namespace Kademlia

/-- A peer and its script. -/
structure Peer where
  address : Endpoint
  id : Id
  nodes : List Contact := []
  /-- The key of which it knows publishers, with these. -/
  values : Option (Id × List Contact) := none
  /-- What it answers to particular methods. -/
  replies : List (String × Body) := []
  replyFrom : Endpoint := address
  unreachable : Bool := false
  /-- How many of the next requests to it are lost. -/
  drops : Nat := 0
deriving DecidableEq

/-- What becomes of a datagram that is sent. -/
inductive Receipt where
  /-- It could not be sent. -/
  | refused
  | silent
  | answered (packet : Bytes) (source : Endpoint)
deriving DecidableEq

namespace Peer

/-- What the peer knows about a value: its publishers, or else closer contacts. -/
def valueReply (peer : Peer) : Response :=
  match peer.values with
  | some (key, publishers) => .values key publishers
  | none => .nodes peer.nodes

/-- What the peer answers to a request that its script does not single out. One that cannot be
served is answered with contacts, whatever its method. -/
def defaultReply (peer : Peer) : Request → Response
  | .ping => .pong
  | .store .. => .stored
  | .findValue _ => peer.valueReply
  | .findNode _ | .invalid .. => .nodes peer.nodes

/-- What the peer answers to a request. The script goes by the method alone, whether the request can
be served or not. -/
def reply (peer : Peer) (asked : Request) : Body :=
  (peer.replies.lookup asked.method).getD (.response (peer.defaultReply asked))

/-- What becomes of a packet that reaches the peer. -/
def take (peer : Peer) (packet : Bytes) : Peer × Receipt :=
  match Message.decode packet with
  | .ok ⟨transaction, _, .request asked⟩ =>
    if 0 < peer.drops then ({ peer with drops := peer.drops - 1 }, .silent)
    else
      (peer, .answered (Message.encode ⟨transaction, peer.id, peer.reply asked⟩) peer.replyFrom)
  | _ => (peer, .silent)

end Peer

/-- The peers of a network, one at an address. -/
abbrev Network := List Peer

namespace Network

/-- Puts a peer at its address, in place of any other. -/
def putPeer (network : Network) (peer : Peer) : Network :=
  if network.any (·.address = peer.address) then
    network.map fun other => if other.address = peer.address then peer else other
  else network ++ [peer]

/-- The network of a list of peers; of several at one address the last counts. -/
def ofPeers (peers : List Peer) : Network := peers.foldl putPeer []

/-- Sends a datagram. -/
def deliver (network : Network) (datagram : Datagram) : Network × Receipt :=
  match network.find? (·.address = datagram.destination) with
  | none => (network, .silent)
  | some peer =>
    if peer.unreachable then (network, .refused)
    else
      let (peer, receipt) := peer.take datagram.packet
      (putPeer network peer, receipt)

end Network

/-- A datagram that a node sent. -/
structure Traffic where
  datagram : Datagram
  failed : Bool
deriving DecidableEq

namespace Simulation

/-- The port that a node gets if it asks for any. -/
def anyPort : UInt16 := 50000

/-- The address that a node is bound to. -/
def bind (address : Endpoint) : Endpoint :=
  if address.port = 0 then { address with port := anyPort } else address

end Simulation

end Kademlia
