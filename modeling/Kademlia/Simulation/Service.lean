import Kademlia.Node.Maintain
import Kademlia.Node.Receive
import Kademlia.Simulation.Network

/-!
# Kademlia.Simulation.Service

A node that runs as a service among scripted peers: it joins at its start, its packets wait in an
inbox, and after each packet it looks at its requests. The clock stands still, so a request that
is not answered by the time the inbox is empty is not answered at all as far as its caller is
concerned, yet a later answer still finds it. A service that was shut down refuses every call.

Callers wait by the clock of the host, which runs on. An activity that has to reckon a time too long
to be reckoned, or to wait until an instant that the clock does not reach, halts and never ends.
This is the end of the caller too, unless the activity was run aside: then only the activity is
lost.
-/

namespace Kademlia

/-- A running node, its peers and its inbox. -/
structure Service where
  node : Node
  network : Network
  /-- The datagrams that have arrived and wait to be taken in. -/
  inbox : List (Bytes × Endpoint)
  traffic : List Traffic
  /-- Has an activity come to a halt? -/
  halted : Bool
deriving DecidableEq

/-- Why a call of a service was refused. -/
inductive ServiceError where
  | wasShutdown
deriving DecidableEq

/-- The wording of an error. -/
def ServiceError.message : ServiceError → String
  | .wasShutdown => "Dht was shutdown"

namespace Service

/-- The instant at which the clock stands. -/
def now : Time := 0

/-- Was the service shut down? -/
def isShutdown (service : Service) : Bool := service.node.ledger.closed

/-- A datagram arrives. One whose sender cannot be answered is lost. -/
def arrive (service : Service) (packet : Bytes) (source : Endpoint) : Service :=
  match readDatagram? packet (.v4 source) with
  | none => service
  | some datagram => { service with inbox := service.inbox ++ [datagram] }

/-- Sends a datagram; the answer to it arrives in the inbox. Tells whether it could be sent. -/
def transmit (service : Service) (datagram : Datagram) : Service × Bool :=
  let (network, receipt) := service.network.deliver datagram
  let sent := { service with
    network, traffic := service.traffic ++ [⟨datagram, receipt = .refused⟩] }
  match receipt with
  | .refused => (sent, false)
  | .silent => (sent, true)
  | .answered packet source => (sent.arrive packet source, true)

/-- A request has been sent: the node reckons how long it may be waited for. -/
def reckon (service : Service) : Service :=
  { service with halted := service.halted || service.node.ledger.maxWait?.isNone }

/-- A packet is about to be taken in: the node reckons when the record expires that it may have to
store. -/
def reckonStore (service : Service) (packet : Bytes) : Service :=
  { service with halted := service.halted || service.node.overruns packet now }

/-- Something has been sent, which for a ping means that it is waited for. -/
def noteSent (service : Service) : Outgoing → Service
  | .answer _ | .retry _ => service
  | .probe _ _ => service.reckon

/-- Sends what a transition of the node has to send. -/
def post (service : Service) (outgoing : List Outgoing) : Service :=
  outgoing.foldl (fun service out =>
    match service.transmit out.datagram with
    | (service, true) => service.noteSent out
    | (service, false) => { service with node := service.node.refused out }) service

/-- Lets the node make a transition, and sends what it has to send. -/
def act (service : Service) (transition : Node → Node × List Outgoing) : Service :=
  let (node, outgoing) := transition service.node
  { service with node }.post outgoing

/-- Takes in the packets of the inbox, at most `count` of them, looking at the requests after
each. -/
def drainWithin : Nat → Service → Service
  | 0, service => service
  | count + 1, service =>
    match service.inbox with
    | [] => service
    | (packet, source) :: rest =>
      let reckoned := { service with inbox := rest }.reckonStore packet
      let received := reckoned.act (·.receive packet source now)
      drainWithin count (received.act (·.tick now))

/-- A bound on the packets that are taken in at a time. Peers that answer each request at most once
stay far below it. -/
def maxPackets : Nat := 1 <<< 20

/-- Takes in the packets of the inbox. A service that was shut down leaves them there. -/
def drain (service : Service) : Service :=
  if service.isShutdown then service else drainWithin maxPackets service

/-- The clock of the host when a caller starts to wait. All that matters is that it does not stand
at its beginning. -/
def hostClock : Time := 1000

/-- The instant at which a caller loses patience. -/
def deadline? (service : Service) : Option Time :=
  service.node.ledger.patience?.bind (Time.after? hostClock ·)

/-- Waits for the outcome of a request. -/
def await (service : Service) (handle : Handle) : Service × Outcome :=
  match service.deadline? with
  | none => ({ service with halted := true }, .failed .timeout)
  | some _ =>
    let service := service.drain
    let (node, outcome) := service.node.poll handle
    ({ service with node }, outcome.getD (.failed .timeout))

/-- Has the node send a request. -/
def request (service : Service) (destination : Endpoint) (asked : Request) :
    Service × Except RequestError Handle :=
  match service.node.startRequest destination asked now with
  | .error error => (service, .error error)
  | .ok (node, opened) =>
    match { service with node }.transmit opened.datagram with
    | (service, true) => (service.reckon, .ok opened.handle)
    | (service, false) =>
      ({ service with node := service.node.withdraw opened }, .error .unreachable)

/-- Runs an activity of the node to its end; it has none if it halts on the way. -/
def run {α : Type} : Dialogue α → Service → Service × Option α
  | .done value, service => (service.drain, some value)
  | .step deed next, service =>
    if deed.overruns service.node now then ({ service with halted := true }.drain, none)
    else
      let (seen, node) := deed.perform service.node now
      run (next seen) { service with node }
  | .request destination asked next, service =>
    let (service, result) := service.request destination asked
    if service.halted then (service.drain, none) else run (next result) service
  | .await handle next, service =>
    let (service, outcome) := service.await handle
    if service.halted then (service.drain, none) else run (next outcome) service

/-- Runs an activity aside. If it halts, the service goes on without it. -/
def runAside {α : Type} (dialogue : Dialogue α) (service : Service) : Service × Option α :=
  let (service, value) := run dialogue service
  ({ service with halted := false }, value)

/-! ### The calls of a service -/

/-- Starts a node as a service. It joins if it has nodes to start from. -/
def start (config : Config) (draws : Draws) (peers : List Peer) : Service :=
  let service : Service :=
    { node := .new config (Simulation.bind config.address) draws now
      network := .ofPeers peers
      inbox := []
      traffic := []
      halted := false }
  if config.bootstrap.isEmpty then service else (service.runAside (Node.join .literal)).1

/-- Runs an activity on behalf of a caller; there is no answer if it halts. -/
def call {α : Type} (service : Service) (dialogue : Dialogue α) :
    Service × Option (Except ServiceError α) :=
  if service.isShutdown then (service, some (.error .wasShutdown))
  else
    let (service, value) := run dialogue service
    (service, value.map .ok)

/-- Runs an activity aside on behalf of a caller, for whom a lost activity looks like a service that
was shut down. -/
def callAside {α : Type} (service : Service) (dialogue : Dialogue α) :
    Service × Except ServiceError α :=
  if service.isShutdown then (service, .error .wasShutdown)
  else
    let (service, value) := runAside dialogue service
    (service, (value.map .ok).getD (.error .wasShutdown))

/-- Pings an address aside on behalf of a caller, for whom a lost ping looks like one that was not
answered. -/
def pingAside (service : Service) (destination : Endpoint) : Service × Except RequestError Id :=
  let (service, result) := service.runAside (Node.ping destination)
  (service, result.getD (.error .timeout))

/-- Looks at the node on behalf of a caller. -/
def look {α : Type} (service : Service) (view : Node → α) : Except ServiceError α :=
  if service.isShutdown then .error .wasShutdown else .ok (view service.node)

/-- A packet arrives and is taken in. -/
def receive (service : Service) (packet : Bytes) (source : Endpoint) : Service :=
  if service.isShutdown then service else (service.arrive packet source).drain

/-- Shuts the service down; doing so again changes nothing. -/
def shutdown (service : Service) : Service := { service with node := service.node.shutdown }

end Service

end Kademlia
