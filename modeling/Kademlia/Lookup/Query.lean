import Kademlia.Bucket
import Kademlia.Config
import Kademlia.Ranking

/-!
# Kademlia.Lookup.Query

Whom a lookup asks next. A lookup goes by rounds: each asks up to three of the closest contacts not
asked before, and their answers name further contacts. Once a round has brought nothing closer than
was known before it, or enough contacts have answered, one last round asks all that were not asked
among the twenty closest.

A query only decides; sending requests and taking in answers is left to `Node.lookup`.
-/

namespace Kademlia

/-- How far a query has come. -/
inductive Query.Phase where
  | searching
  /-- The last round has been handed out. -/
  | lastRound
  | done
deriving DecidableEq

/-- The state of a lookup. -/
structure Query where
  /-- All contacts heard of, asked or not. -/
  known : Ranking
  responders : Ranking
  visited : List Id
  /-- The closest id that was known before the present round; none before the first round. -/
  bestBefore : Option Id
  /-- How far the query has come. -/
  phase : Query.Phase
deriving DecidableEq

namespace Query

/-- The number of contacts that a lookup is after. -/
def wanted : Nat := Bucket.capacity

/-- The query for a target that starts from given contacts. -/
def new (target : Id) (seeds : List Contact) : Query :=
  { known := .ofList target seeds
    responders := .empty target
    visited := []
    bestBefore := none
    phase := .searching }

/-- What is looked for. -/
def target (query : Query) : Id := query.known.target

/-- Is nobody else asked? -/
def isDone (query : Query) : Bool := query.phase = .done

/-- Has the contact been asked? -/
def isVisited (query : Query) (contact : Contact) : Bool := contact.id ∈ query.visited

/-- Has the contact answered? -/
def hasResponded (query : Query) (contact : Contact) : Bool := query.responders.contains contact.id

/-- The id of the closest contact heard of. -/
def best? (query : Query) : Option Id := query.known.best?.map Contact.id

/-- Is there a contact that was not asked and is closer than the twentieth that answered? There is
always one to be hoped for while fewer have answered. -/
def hasCloserUnvisited (query : Query) : Bool :=
  match query.responders.contacts[wanted - 1]? with
  | none => true
  | some kth =>
    (query.known.contacts.takeWhile fun contact =>
      query.target.distance contact.id < query.target.distance kth.id).any (!query.isVisited ·)

/-- Is the next round the last? -/
def hasConverged (query : Query) : Bool :=
  -- Before the first round there is nothing to compare with, so the first never counts as idle.
  (query.bestBefore.isSome && query.best? == query.bestBefore) || !query.hasCloserUnvisited

/-- The contacts that the next round asks. -/
def candidates (query : Query) : List Contact :=
  if query.hasConverged then (query.known.contacts.take wanted).filter (!query.isVisited ·)
  else (query.known.contacts.filter (!query.isVisited ·)).take lookupWidth

/-- Notes that a round was handed out. -/
def visit (query : Query) (round : List Contact) : Query :=
  { query with
    visited := query.visited ++ round.map Contact.id
    bestBefore := query.best?
    phase := if query.hasConverged then .lastRound else .searching }

/-- Hands out the contacts of the next round; none once the query is done. -/
def nextRound (query : Query) : List Contact × Query :=
  match query.phase with
  | .searching =>
    match query.candidates with
    | [] => ([], { query with phase := .done })
    | round => (round, query.visit round)
  | _ => ([], { query with phase := .done })

/-- Takes in an answer: who sent it, and the contacts that it names. -/
def addResponse (query : Query) (sender : Contact) (named : List Contact) : Query :=
  { query with
    known := (query.known.insertAll named).insert sender
    responders := query.responders.insert sender }

/-- The closest contacts heard of, without those that were asked and did not answer. -/
def closest (query : Query) : List Contact :=
  (query.known.contacts.filter fun contact =>
    !query.isVisited contact || query.hasResponded contact).take wanted

end Query

end Kademlia
