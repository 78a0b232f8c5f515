import Kademlia.Node.Lookup

/-!
# Kademlia.Node.Publish

Publishing: a node that offers the content of a key asks the contacts closest to the key to remember
it as a publisher, and remembers itself to do so again in time.
-/

namespace Kademlia

/-- Is an outcome the acknowledgement of a store? -/
def Outcome.isStored : Outcome → Bool
  | .replied reply => reply.response = .stored
  | .failed _ => false

namespace Node

/-- Asks contacts to store a publisher of a key, and counts those that acknowledge it. Only the
publisher's id and port are sent. -/
def storeAt (contacts : List Contact) (key : Id) (publisher : Contact) : Dialogue Nat := do
  let handles ← Dialogue.sendAll (.store key publisher.id publisher.address.port)
    (contacts.map Contact.address)
  let outcomes ← Dialogue.outcomes handles
  pure (outcomes.countP Outcome.isStored)

/-- Publishes a key at the closest contacts, and counts those that acknowledge it. -/
def announce (key : Id) : Dialogue Nat := do
  let publisher ← Dialogue.does (.publish key)
  let contacts ← lookupNode key
  storeAt contacts key publisher

end Node

end Kademlia
