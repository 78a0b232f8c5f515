import Kademlia.Node.Basic

/-!
# Kademlia.Node.Probes

How a node learns of contacts, and how it finds out which of them are gone. A contact that is
offered to a full bucket has the stalest contact of the bucket pinged. If the ping is answered by
the id that was pinged, the contact stays; otherwise a replacement takes its place.
-/

namespace Kademlia

/-- Is an outcome a response from the node with the given id? -/
def Outcome.isReplyFrom (id : Id) : Outcome → Bool
  | .replied reply => reply.sender.id = id
  | .failed _ => false

namespace Node

/-- Gives up a contact. -/
def evict (node : Node) (id : Id) : Node := { node with table := (node.table.evict id).1 }

/-- Pings the stalest contact of a full bucket; a contact that cannot be pinged is given up. -/
def startProbe (node : Node) (contact : Contact) (now : Time) : Node × List Outgoing :=
  match node.startRequest contact.address .ping now with
  | .ok (node, opened) =>
    ({ node with probes := node.probes ++ [⟨contact, opened.handle⟩] }, [.probe contact opened])
  | .error _ => (node.evict contact.id, [])

/-- Notes that a contact was heard of. -/
def addContact (node : Node) (contact : Contact) (now : Time) : Node × List Outgoing :=
  let (table, outcome) := node.table.update contact now
  let node := { node with table }
  match outcome with
  | .full (some suspect) => node.startProbe suspect now
  | _ => (node, [])

/-- A ping of a stalest contact could not be sent: the contact is given up. -/
def probeRefused (node : Node) (contact : Contact) (opened : OpenedRequest) : Node :=
  let node := node.withdraw opened
  { node with probes := node.probes.filter (·.handle ≠ opened.handle) }.evict contact.id

/-- Draws the conclusion from the outcome of a ping. -/
def concludeProbe (node : Node) (contact : Contact) (outcome : Outcome) : Node :=
  if outcome.isReplyFrom contact.id then
    { node with table := node.table.pingAnswered contact.id }
  else node.evict contact.id

/-- Looks whether a ping has an outcome; if not, it stays under way. -/
def reviewProbe (node : Node) (probe : Probe) : Node :=
  match node.poll probe.handle with
  | (node, none) => { node with probes := node.probes ++ [probe] }
  | (node, some outcome) => node.concludeProbe probe.contact outcome

/-- Looks at all pings that are under way. -/
def reviewProbes (node : Node) : Node :=
  node.probes.foldl reviewProbe { node with probes := [] }

/-- Something could not be sent. Answers and repeated requests are simply lost. -/
def refused (node : Node) : Outgoing → Node
  | .answer _ | .retry _ => node
  | .probe contact opened => node.probeRefused contact opened

end Node

end Kademlia
