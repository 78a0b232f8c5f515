import Kademlia.Dialogue

/-!
# Kademlia.Node.Lookup

Lookups: going from contact to contact, closer and closer to a target. The requests of a round are
all sent before the first answer is waited for, and the answers are taken in in the order of the
requests. The first answer that names publishers of the target itself ends the lookup, with
whatever it names; any other answer counts as coming from a contact that is there.

A round brings something closer or is the last but one, so the distance of the closest contact
bounds the number of rounds.
-/

namespace Kademlia

/-- What a lookup found. -/
inductive Finding where
  | nodes (contacts : List Contact)
  | values (publishers : List Contact)
deriving DecidableEq

/-- What an answer means to a lookup. -/
inductive Query.Step where
  | goOn (query : Query)
  /-- The lookup ends with publishers of the target. -/
  | found (publishers : List Contact)

/-- Takes in the outcome of a request of a lookup. The node's own id is not a contact. -/
def Query.takeIn (query : Query) (own : Id) : Outcome → Query.Step
  | .failed _ => .goOn query
  | .replied ⟨sender, .nodes contacts⟩ =>
    .goOn (query.addResponse sender (contacts.filter (·.id ≠ own)))
  | .replied ⟨sender, .values key publishers⟩ =>
    if key = query.target then .found publishers else .goOn (query.addResponse sender [])
  | .replied ⟨sender, .success _⟩ => .goOn (query.addResponse sender [])

namespace Node

/-- Takes in the answers of a round, until one ends the lookup. -/
def gatherRound (own : Id) : List Handle → Query → Dialogue Query.Step
  | [], query => pure (.goOn query)
  | handle :: rest, query => do
    match query.takeIn own (← Dialogue.outcome handle) with
    | .goOn query => gatherRound own rest query
    | .found publishers => pure (.found publishers)

/-- Runs the rounds of a query, at most `rounds` of them. -/
def runRounds (own : Id) (asked : Request) : Nat → Query → Dialogue Finding
  | 0, query => pure (.nodes query.closest)
  | rounds + 1, query =>
    if query.isDone then pure (.nodes query.closest)
    else do
      let (round, query) := query.nextRound
      let handles ← Dialogue.sendAll asked (round.map Contact.address)
      match ← gatherRound own handles query with
      | .goOn query => runRounds own asked rounds query
      | .found publishers => pure (.values publishers)

/-- More rounds than any lookup has: each but the first and the last two starts with a closest
contact at a smaller distance than the one before. -/
def maxRounds : Nat := (1 <<< Id.width) + 4

/-- Looks for a target by sending the same request to closer and closer contacts. -/
def lookup (target : Id) (asked : Request) : Dialogue Finding := do
  let own ← Dialogue.look fun node _ => node.id
  let query ← Dialogue.does (.seed target)
  runRounds own asked maxRounds query

/-- The contacts closest to a target. -/
def lookupNode (target : Id) : Dialogue (List Contact) := do
  match ← lookup target (.findNode target) with
  | .nodes contacts | .values contacts => pure contacts

/-- The publishers of a key: those the node remembers itself, or else those that a lookup finds. -/
def findValue (key : Id) : Dialogue (List Contact) := do
  match ← Dialogue.look fun node now => node.records.get key now with
  | [] =>
    match ← lookup key (.findValue key) with
    | .values publishers => pure publishers
    | .nodes _ => pure []
  | publishers => pure publishers

/-- The id of the node at an address, or why it did not answer. -/
def ping (destination : Endpoint) : Dialogue (Except RequestError Id) := do
  match ← Dialogue.send destination .ping with
  | .error error => pure (.error error)
  | .ok handle =>
    match ← Dialogue.outcome handle with
    | .replied reply => pure (.ok reply.sender.id)
    | .failed error => pure (.error error)

end Node

end Kademlia
