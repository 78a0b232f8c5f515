import Kademlia.Lookup.Query
import Kademlia.Node.Basic
import Kademlia.Upkeep

/-!
# Kademlia.Node.Deed

What the activities of a node do to the node's state by themselves, in one step each. All else that
they do is to send requests and to take their outcomes.
-/

namespace Kademlia

namespace Node

/-- Starts a lookup at the closest contacts of the table; the target's bucket counts as used. -/
def seed (node : Node) (target : Id) (now : Time) : Query × Node :=
  let table := node.table.touch target now
  (.new target (table.findClosest target lookupWidth), { node with table })

/-- Notes that the node publishes a key, and returns the node as a publisher. -/
def publishOwn (node : Node) (key : Id) (now : Time) : Contact × Node :=
  (node.asPublisher, { node with records := node.records.publish key node.asPublisher now })

/-- Drops expired records. -/
def sweepRecords (node : Node) (now : Time) : Node :=
  { node with records := node.records.sweep now }

/-- Finds out what is due. -/
def takeDuties (upkeep : Upkeep) (node : Node) (now : Time) : (Upkeep × Duties) × Node :=
  let (upkeep, draws, duties) := upkeep.decide node.table node.records node.draws now
  ((upkeep, duties), { node with draws })

/-- A step on the node's state, and what it lets see. -/
inductive Deed : Type → Type 1 where
  /-- The node looks at its state without changing it. -/
  | look {β : Type} (view : Node → Time → β) : Deed β
  /-- A lookup begins. -/
  | seed (target : Id) : Deed Query
  /-- The node notes that it publishes a key. -/
  | publish (key : Id) : Deed Contact
  | sweep : Deed Unit
  /-- Upkeep decides what to do. -/
  | draw (upkeep : Upkeep) : Deed (Upkeep × Duties)

/-- Makes the step. -/
def Deed.perform {β : Type} : Deed β → Node → Time → β × Node
  | .look view, node, now => (view node now, node)
  | .seed target, node, now => node.seed target now
  | .publish key, node, now => node.publishOwn key now
  | .sweep, node, now => ((), node.sweepRecords now)
  | .draw upkeep, node, now => takeDuties upkeep node now

/-- The key that the step publishes. -/
def Deed.publishes? {β : Type} : Deed β → Option Id
  | .publish key => some key
  | _ => none

/-- Does the step have to reckon an instant that the clock does not get to? -/
def Deed.overruns {β : Type} (deed : Deed β) (node : Node) (now : Time) : Bool :=
  deed.publishes?.isSome && (node.records.expiry? now).isNone

end Node

end Kademlia
