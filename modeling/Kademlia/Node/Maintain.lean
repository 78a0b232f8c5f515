import Kademlia.Node.Publish

/-!
# Kademlia.Node.Maintain

The activities by which a node keeps its place in the network: joining through bootstrap nodes, and
the upkeep that is due from time to time. Bootstrap nodes are given by name or address, and the
host has to resolve them: the activities take the answers of its resolver as an argument.
-/

namespace Kademlia

namespace Node

/-! ### Joining -/

/-- The addresses of the bootstrap nodes, without the node itself. A name may have several; those
of the other address family are passed over, and so are names without any. -/
def bootstrapAddresses (resolve : Resolver) (node : Node) : List Endpoint :=
  ((node.config.bootstrap.flatMap resolve).filterMap SocketAddress.toV4?).filter (· ≠ node.address)

/-- Pings the bootstrap nodes and looks for the node's own id, so that the table fills. -/
def join (resolve : Resolver := .literal) : Dialogue Unit := do
  let (own, addresses) ←
    Dialogue.look fun node _ => (node.id, node.bootstrapAddresses resolve)
  let handles ← Dialogue.sendAll .ping addresses
  -- Who answers is noted on arrival; the outcomes themselves say nothing more.
  let _ ← Dialogue.outcomes handles
  let _ ← lookupNode own
  pure ()

/-! ### Upkeep -/

/-- The publishers of a key other than the node itself, expired or not. -/
def otherPublishers (node : Node) (key : Id) : List Contact :=
  ((node.records.of key).map Record.publisher).filter (·.id ≠ node.id)

/-- Passes on what the node remembers about a key. -/
def replicate (key : Id) : Dialogue Unit := do
  match ← Dialogue.look fun node _ => node.otherPublishers key with
  | [] => pure ()
  | publishers =>
    let contacts ← lookupNode key
    Dialogue.each (fun publisher => do let _ ← storeAt contacts key publisher) publishers

/-- Does what is due. -/
def perform (resolve : Resolver) (duties : Duties) : Dialogue Unit := do
  let bootstrap ← Dialogue.look fun node _ => node.config.bootstrap
  if duties.rejoin && !bootstrap.isEmpty then join resolve
  Dialogue.each (fun target => do let _ ← lookupNode target) duties.refresh
  Dialogue.each replicate duties.replicate
  Dialogue.each (fun key => do let _ ← announce key) duties.republish

/-- Drops expired records, and does the upkeep that is due. -/
def maintain (upkeep : Upkeep) (resolve : Resolver := .literal) : Dialogue Upkeep := do
  Dialogue.does .sweep
  let (upkeep, duties) ← Dialogue.does (.draw upkeep)
  perform resolve duties
  pure upkeep

end Node

end Kademlia
