import Kademlia.Node.Lookup
import Kademlia.Node.Receive
import Kademlia.Simulation.Network

/-!
# Kademlia.Simulation.World

A node among scripted peers, with a clock that moves only on demand. An answer reaches the node at
once, while it is still sending; only what a tick sends is held back until the tick is over and
then goes out in the order of the packets. A node that waits for an outcome lets the clock run by
the request timeout and ticks, until the outcome is there or its patience is at an end.

Whoever has sent a request reckons how long it may be waited for, and whoever stores a record
reckons when it expires. If the settings make that too long to be reckoned, the node halts
(`World.halted`), and what it was doing never ends.
-/

namespace Kademlia

/-- A node, its peers and the clock. -/
structure World where
  clock : Time
  node : Node
  network : Network
  traffic : List Traffic
  /-- Has the node come to a halt? -/
  halted : Bool
deriving DecidableEq

namespace World

/-- The world at the beginning, with a node that has just been started. -/
def start (config : Config) (draws : Draws) (peers : List Peer) : World :=
  { clock := 0
    node := .new config (Simulation.bind config.address) draws 0
    network := .ofPeers peers
    traffic := []
    halted := false }

/-- Lets time pass without anybody noticing. -/
def advance (world : World) (span : Duration) : World :=
  { world with clock := world.clock + span }

/-- Puts a peer at its address. -/
def putPeer (world : World) (peer : Peer) : World :=
  { world with network := world.network.putPeer peer }

/-- Sends a datagram and notes that it was sent. -/
def transmit (world : World) (datagram : Datagram) : World × Receipt :=
  let (network, receipt) := world.network.deliver datagram
  ({ world with
      network
      traffic := world.traffic ++ [⟨datagram, receipt = .refused⟩] },
   receipt)

/-- A request has been sent: the node reckons how long it may be waited for. -/
def reckon (world : World) : World :=
  { world with halted := world.halted || world.node.ledger.maxWait?.isNone }

/-- A packet is about to be taken in: the node reckons when the record expires that it may have to
store. -/
def reckonStore (world : World) (packet : Bytes) : World :=
  { world with halted := world.halted || world.node.overruns packet world.clock }

/-- Something has been sent, which for a ping means that it is waited for. -/
def noteSent (world : World) : Outgoing → World
  | .answer _ | .retry _ => world
  | .probe _ _ => world.reckon

/-- Sends what a transition of the node has to send, one after the other, and passes answers on to
the node as they come. Taking in an answer may have the node send more; `depth` bounds how often
this happens within itself. -/
def postWithin : Nat → World → List Outgoing → World
  | 0, world, _ => world
  | depth + 1, world, outgoing =>
    outgoing.foldl (fun world out =>
      let (world, receipt) := world.transmit out.datagram
      match receipt with
      | .refused => { world with node := world.node.refused out }
      | .silent => world.noteSent out
      | .answered packet source =>
        let world := world.reckonStore packet
        let (node, more) := world.node.receive packet source world.clock
        (postWithin depth { world with node } more).noteSent out) world

/-- Each answer within an answer comes from a ping of another bucket, and there are no more buckets
than bits. -/
def maxDepth : Nat := 2 * Id.width

/-- Sends what a transition of the node has to send. -/
def post (world : World) (outgoing : List Outgoing) : World := postWithin maxDepth world outgoing

/-- Lets the node make a transition, and sends what it has to send. -/
def act (world : World) (transition : Node → Time → Node × List Outgoing) : World :=
  let (node, outgoing) := transition world.node world.clock
  { world with node }.post outgoing

/-- Has the node take in a packet. -/
def receive (world : World) (packet : Bytes) (source : Endpoint) : World :=
  (world.reckonStore packet).act fun node now => node.receive packet source now

/-- Has the node note a contact. -/
def addContact (world : World) (contact : Contact) : World :=
  world.act fun node now => node.addContact contact now

/-- Puts what is to be sent in front of the first whose packet is greater. -/
def placeByPacket (out : Outgoing) : List Outgoing → List Outgoing
  | [] => [out]
  | head :: rest =>
    if out.datagram.packet < head.datagram.packet then out :: head :: rest
    else head :: placeByPacket out rest

/-- What is to be sent, in the order of the packets. -/
def byPacket (outgoing : List Outgoing) : List Outgoing := outgoing.foldr placeByPacket []

/-- Has the node look at its requests. -/
def tick (world : World) : World :=
  world.act fun node now =>
    let (node, outgoing) := node.tick now
    (node, byPacket outgoing)

/-! ### Requests and dialogues -/

/-- Has the node send a request. -/
def request (world : World) (destination : Endpoint) (asked : Request) :
    World × Except RequestError OpenedRequest :=
  match world.node.startRequest destination asked world.clock with
  | .error error => (world, .error error)
  | .ok (node, opened) =>
    let (world, receipt) := { world with node }.transmit opened.datagram
    match receipt with
    | .refused => ({ world with node := world.node.withdraw opened }, .error .unreachable)
    | .silent => (world.reckon, .ok opened)
    | .answered packet source => ((world.receive packet source).reckon, .ok opened)

/-- Hands out the outcome of a request, if there is one. -/
def poll (world : World) (handle : Handle) : World × Option Outcome :=
  let (node, outcome) := world.node.poll handle
  ({ world with node }, outcome)

/-- Waits for the outcome of a request, at most for some number of request timeouts. -/
def awaitWithin : Nat → World → Handle → World × Outcome
  | 0, world, handle =>
    let (world, outcome) := world.poll handle
    (world, outcome.getD (.failed .timeout))
  | rounds + 1, world, handle =>
    match world.poll handle with
    | (world, some outcome) => (world, outcome)
    | (world, none) =>
      awaitWithin rounds (world.advance world.node.ledger.timeout).tick handle

/-- How many request timeouts a node has patience for; none if no time is waited for at all. -/
def patience? (world : World) : Option Nat :=
  world.node.ledger.patience?.map fun patience =>
    if world.node.ledger.timeout = 0 then 0 else patience / world.node.ledger.timeout

/-- Waits for the outcome of a request. -/
def await (world : World) (handle : Handle) : World × Outcome :=
  match world.patience? with
  | none => ({ world with halted := true }, .failed .timeout)
  | some rounds => awaitWithin rounds world handle

/-- Runs an activity of the node to its end; it has none if the node halts on the way. -/
def run {α : Type} : Dialogue α → World → World × Option α
  | .done value, world => (world, some value)
  | .step deed next, world =>
    if deed.overruns world.node world.clock then ({ world with halted := true }, none)
    else
      let (seen, node) := deed.perform world.node world.clock
      run (next seen) { world with node }
  | .request destination asked next, world =>
    let (world, result) := world.request destination asked
    if world.halted then (world, none)
    else run (next (result.map OpenedRequest.handle)) world
  | .await handle next, world =>
    let (world, outcome) := world.await handle
    if world.halted then (world, none) else run (next outcome) world

end World

end Kademlia
